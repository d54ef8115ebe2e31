import DalvikPatch.Text.Basic

/-! String literals inside a line, and the comment that may end the line. Both have to agree on
where a literal ends: at the first quote that no backslash guards. -/

namespace DalvikPatch.Text

/-- Where a reader stands: outside of any literal, inside one, or after a backslash in one. -/
inductive Literal where
  | outside
  | inside
  | guarded
  deriving DecidableEq

/-- Where a reader stands after one more character. -/
def Literal.next (c : Char) : Literal → Literal
  | .outside => if c = '"' then .inside else .outside
  | .inside => if c = '"' then .outside else if c = '\\' then .guarded else .inside
  | .guarded => .inside

/-- Reads a literal from inside of it: what stands before the closing quote, still escaped, and
the text after it. -/
def readLiteral? (place : Literal) : Text → Option (Text × Text)
  | [] => none
  | c :: s =>
    if place.next c = .outside then some ([], s)
    else (readLiteral? (place.next c) s).map fun p => (c :: p.1, p.2)

/-- A line up to its comment, from a given place. -/
def cutCommentFrom (place : Literal) : Text → Text
  | [] => []
  | c :: s => if place = .outside ∧ c = '#' then [] else c :: cutCommentFrom (place.next c) s

/-- A line without the comment that a `#` outside of its literals starts. -/
def cutComment (s : Text) : Text := cutCommentFrom .outside s

/-- A literal that reads well keeps its place in the line, and the comment starts after it. -/
theorem cutCommentFrom_of_readLiteral? {place : Literal} {s b r : Text} (hp : place ≠ .outside)
    (h : readLiteral? place s = some (b, r)) :
    cutCommentFrom place s = b ++ '"' :: cutCommentFrom .outside r := by
  fun_induction readLiteral? place s generalizing b with
  | case1 => simp at h
  | case2 place c s hc =>
    cases h
    have : c = '"' := by
      cases place <;> simp_all [Literal.next]
      split at hc <;> simp_all
    simp [cutCommentFrom, hp, this ▸ hc, this]
  | case3 place c s hc ih =>
    obtain ⟨p, hq, he⟩ := Option.map_eq_some_iff.1 h
    cases he
    simp [cutCommentFrom, hp, ih hc hq]

end DalvikPatch.Text
