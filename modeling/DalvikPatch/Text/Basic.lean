/-! Text as a plain list of characters, with the three ways of looking for a word in it:
at the start, at its first place and at its last. Cutting at a word loses nothing, so a
replacement is a cut, the new word, and the rest. -/

namespace DalvikPatch

/-- Text is read and written character by character. -/
abbrev Text := List Char

instance : Coe String Text := ⟨String.toList⟩

namespace Text

/-- A text between braces. -/
def braced (s : Text) : Text := ['{'] ++ s ++ ['}']

@[simp] theorem braced_ne_nil (s : Text) : braced s ≠ [] := by simp [braced]

@[simp] theorem mem_braced {c : Char} {s : Text} : c ∈ braced s ↔ c = '{' ∨ c ∈ s ∨ c = '}' := by simp [braced]

/-- What follows `word` at the start of a text. -/
def after? : (word : Text) → Text → Option Text
  | [], s => some s
  | _ :: _, [] => none
  | w :: ws, c :: cs => if w = c then after? ws cs else none

theorem after?_append (word s : Text) : after? word (word ++ s) = some s := by
  induction word with
  | nil => simp [after?]
  | cons w ws ih => simpa [after?] using ih

theorem eq_append_of_after? {word s r : Text} (h : after? word s = some r) : s = word ++ r := by
  fun_induction after? word s with
  | case1 s => simpa using h
  | case2 => simp at h
  | case3 ws c cs ih => simpa using ih h
  | case4 => simp at h

theorem after?_eq_some_iff {word s r : Text} : after? word s = some r ↔ s = word ++ r :=
  ⟨eq_append_of_after?, fun h => h ▸ after?_append word r⟩

/-- Whether a text starts with `word`. -/
def startsWith (word s : Text) : Bool := (after? word s).isSome

theorem startsWith_iff {word s : Text} : startsWith word s = true ↔ ∃ r, s = word ++ r := by
  simp [startsWith, Option.isSome_iff_exists, after?_eq_some_iff]

/-- Whether a text ends with `word`. -/
def endsWith (word s : Text) : Bool := startsWith word.reverse s.reverse

/-- The text before the first `mark` and the text after it. -/
def cut? (mark : Text) : Text → Option (Text × Text)
  | [] => if mark = [] then some ([], []) else none
  | c :: cs => match after? mark (c :: cs) with
    | some r => some ([], r)
    | none => (cut? mark cs).map fun p => (c :: p.1, p.2)

theorem eq_of_cut? {mark s : Text} {p : Text × Text} (h : cut? mark s = some p) :
    s = p.1 ++ mark ++ p.2 := by
  fun_induction cut? mark s generalizing p with
  | case1 => cases h; simp [*]
  | case2 => simp at h
  | case3 c cs r hr => cases h; simpa using eq_append_of_after? hr
  | case4 c cs _ ih =>
    obtain ⟨q, hq, rfl⟩ := Option.map_eq_some_iff.1 h
    simp [ih hq]

theorem length_lt_of_cut? {mark s : Text} {p : Text × Text} (hm : mark ≠ [])
    (h : cut? mark s = some p) : p.2.length < s.length := by
  have := congrArg List.length (eq_of_cut? h)
  have := List.length_pos_iff.2 hm
  simp at *; omega

/-- The text before the last `mark` and the text after it. -/
def cutLast? (mark : Text) : Text → Option (Text × Text)
  | [] => if mark = [] then some ([], []) else none
  | c :: cs => match cutLast? mark cs with
    | some p => some (c :: p.1, p.2)
    | none => (after? mark (c :: cs)).map fun r => ([], r)

theorem eq_of_cutLast? {mark s : Text} {p : Text × Text} (h : cutLast? mark s = some p) :
    s = p.1 ++ mark ++ p.2 := by
  fun_induction cutLast? mark s generalizing p with
  | case1 => cases h; simp [*]
  | case2 => simp at h
  | case3 c cs q hq ih => cases h; simp [ih hq]
  | case4 c cs _ ih =>
    obtain ⟨r, hr, rfl⟩ := Option.map_eq_some_iff.1 h
    simpa using eq_append_of_after? hr

/-- Replaces the first `old`; an empty `old` stands at the start. -/
def replaceFirst (old new s : Text) : Text :=
  match cut? old s with
  | some p => p.1 ++ new ++ p.2
  | none => s

/-- Replaces every `old` from left to right; an empty `old` stands nowhere. -/
def replaceAll (old new s : Text) : Text :=
  if _ : old = [] then s else
    match _ : cut? old s with
    | some p => p.1 ++ new ++ replaceAll old new p.2
    | none => s
termination_by s.length
decreasing_by exact length_lt_of_cut? ‹_› ‹_›

/-- Whether a text comes before another or is the same, by the numbers of their characters. -/
def isUpTo : Text → Text → Bool
  | [], _ => true
  | _ :: _, [] => false
  | c :: cs, d :: ds => if c = d then isUpTo cs ds else c < d

/-- The pieces between the `mark`s, one more than there are marks. -/
def pieces (mark : Char) : Text → List Text
  | [] => [[]]
  | c :: cs =>
    if c = mark then [] :: pieces mark cs
    else match pieces mark cs with
      | [] => [[c]]
      | w :: ws => (c :: w) :: ws

/-- Writes texts one after the other with `mark` between them. -/
def join (mark : Text) : List Text → Text
  | [] => []
  | [w] => w
  | w :: ws => w ++ mark ++ join mark ws

theorem pieces_ne_nil (mark : Char) (s : Text) : pieces mark s ≠ [] := by
  cases s with
  | nil => simp [pieces]
  | cons c cs =>
    simp only [pieces]
    split
    · simp
    · split <;> simp

theorem join_pieces (mark : Char) (s : Text) : join [mark] (pieces mark s) = s := by
  induction s with
  | nil => rfl
  | cons c cs ih =>
    simp only [pieces]
    split
    · next h =>
      obtain ⟨w, ws, hw⟩ := List.exists_cons_of_ne_nil (pieces_ne_nil mark cs)
      rw [hw] at ih ⊢
      simp [join, ih, h]
    · split
      · next h => exact absurd h (pieces_ne_nil mark cs)
      · next w ws h =>
        rw [h] at ih
        cases ws <;> simp_all [join]

theorem pieces_append (mark : Char) (s t : Text) :
    pieces mark (s ++ mark :: t) = pieces mark s ++ pieces mark t := by
  induction s with
  | nil => simp [pieces]
  | cons c s ih =>
    rw [List.cons_append, pieces, pieces, ih]
    split
    · rfl
    · obtain ⟨w, ws, hw⟩ := List.exists_cons_of_ne_nil (pieces_ne_nil mark s)
      rw [hw]
      rfl

theorem pieces_of_not_mem {mark : Char} {s : Text} (h : mark ∉ s) : pieces mark s = [s] := by
  induction s with
  | nil => rfl
  | cons c s ih =>
    have hc : c ≠ mark := fun hc => h (by simp [hc])
    rw [pieces, if_neg hc, ih fun hs => h (List.mem_cons_of_mem _ hs)]

theorem mem_of_mem_join {c : Char} {mark : Text} {ws : List Text} (h : c ∈ join mark ws) :
    c ∈ mark ∨ ∃ w ∈ ws, c ∈ w := by
  induction ws with
  | nil => cases h
  | cons w ws ih =>
    cases ws with
    | nil => exact .inr ⟨w, List.mem_singleton_self w, h⟩
    | cons v ws =>
      rw [join, List.mem_append, List.mem_append] at h
      · rcases h with (h | h) | h
        · exact .inr ⟨w, List.mem_cons_self, h⟩
        · exact .inl h
        · rcases ih h with hmark | ⟨u, hu, hc⟩
          · exact .inl hmark
          · exact .inr ⟨u, List.mem_cons_of_mem _ hu, hc⟩
      · simp

theorem mem_join_of_mem {c : Char} {mark w : Text} {ws : List Text} (hw : w ∈ ws) (hc : c ∈ w) :
    c ∈ join mark ws := by
  induction ws with
  | nil => cases hw
  | cons v ws ih =>
    cases ws with
    | nil => rwa [← List.mem_singleton.1 hw]
    | cons u ws =>
      rw [join, List.mem_append]
      · rcases List.mem_cons.1 hw with rfl | hw
        · exact .inl (List.mem_append_left _ hc)
        · exact .inr (ih hw)
      · simp

end Text

end DalvikPatch
