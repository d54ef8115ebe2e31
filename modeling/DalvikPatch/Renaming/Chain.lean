import DalvikPatch.Text.Basic

/-! Rules that rename a text literal, tried in order: the first that has something for a literal
decides, and later ones are not asked. -/

namespace DalvikPatch

open Text

/-- A named renaming of literals; `none` where it has nothing to say. -/
structure Rule where
  name : Text
  rename : Text → Option Text

namespace Rule

/-- Writes `new` for exactly `old`. -/
def exactly (name old new : Text) : Rule := ⟨name, fun s => if s = old then some new else none⟩

/-- Writes `new` for `old` at the start. -/
def leading (name old new : Text) : Rule := ⟨name, fun s => (after? old s).map (new ++ ·)⟩

/-- Leaves every literal as it is. -/
def keeping (name : Text) : Rule := ⟨name, some⟩

/-- Writes small Latin letters as capitals. -/
def capitals (name : Text) : Rule := ⟨name, fun s => some (s.map Char.toUpper)⟩

def never (name : Text) : Rule := ⟨name, fun _ => none⟩

end Rule

abbrev Chain := List Rule

/-- The name of the rule that decides, and what it writes. -/
def Chain.apply (c : Chain) (s : Text) : Option (Text × Text) :=
  c.findSome? fun r => (r.rename s).map fun t => (r.name, t)

/-- What a chain writes for a literal that it changes. -/
def Chain.change? (c : Chain) (s : Text) : Option Text :=
  (c.apply s).bind fun p => if p.2 = s then none else some p.2

end DalvikPatch
