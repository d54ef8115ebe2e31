import DalvikPatch.Renaming.Chain
import DalvikPatch.Workspace

/-! One pass of a chain of rules over every text that is loaded anywhere. What changes in a class is
collected first and written after, so that a class without a change is not copied. -/

namespace DalvikPatch

open Text

/-- The text that a chain writes in the place of the one an instruction loads. -/
def Instruction.change? (c : Chain) (i : Instruction) : Option Text := i.string?.bind c.change?

/-- What a pass has done. -/
structure PassReport where
  literals : Nat
  classes : Nat
  deriving DecidableEq

/-! ### The pass -/

/-- A text to be written: the method, the place in its body, and the text. -/
structure Rewrite where
  method : Nat
  place : Nat
  text : Text
  deriving DecidableEq

/-- What a chain changes in a body; `index` is the one of the method. -/
def Method.rewrites (c : Chain) (index : Nat) (m : Method) : List Rewrite :=
  m.items.zipIdx.filterMap fun item =>
    (item.1.instruction?.bind (·.change? c)).map fun s => ⟨index, item.2, s⟩

namespace Class

/-- What a chain changes in the bodies of a class, in order. -/
def rewrites (c : Chain) (k : Class) : List Rewrite :=
  k.methods.zipIdx.flatMap fun m => m.1.rewrites c m.2

/-- Writes a text; none if no string is loaded at its place. -/
def write? (k : Class) (r : Rewrite) : Option Class := do
  let m ← k.methods[r.method]?
  let item ← m.items[r.place]?
  let i ← item.instruction?
  let i ← i.withString? r.text
  some { k with
    methods := k.methods.set r.method { m with items := m.items.set r.place (.instruction i) } }

/-- Writes a text and counts it if it could be written. -/
def writeNext (p : Class × Nat) (r : Rewrite) : Class × Nat :=
  match p.1.write? r with
  | some k => (k, p.2 + 1)
  | none => p

end Class

/-- Passes over one class, which is copied if something changes in it. -/
def Slot.pass (c : Chain) (r : PassReport) (s : Slot) : Slot × PassReport :=
  let rs := s.current.rewrites c
  if rs.isEmpty then (s, r)
  else
    let p := rs.foldl Class.writeNext (s.current, 0)
    (s.write p.1, ⟨r.literals + p.2, r.classes + 1⟩)

namespace Workspace

/-- Passes over classes from first to last, adding to a report. -/
def passFrom (c : Chain) (r : PassReport) : List Slot → List Slot × PassReport
  | [] => ([], r)
  | s :: slots =>
    let p := s.pass c r
    let q := passFrom c p.2 slots
    (p.1 :: q.1, q.2)

/-- Passes over all classes. -/
def pass (c : Chain) (w : Workspace) : Workspace × PassReport :=
  let p := passFrom c ⟨0, 0⟩ w.slots
  (⟨p.1⟩, p.2)

end Workspace

/-! ### What a pass amounts to -/

namespace BodyItem

def rename (c : Chain) : BodyItem → BodyItem
  | instruction i => instruction (((i.change? c).bind fun s => i.withString? s).getD i)
  | item => item

/-- Whether a chain changes the text that is loaded here. -/
def isChanged (c : Chain) (item : BodyItem) : Bool :=
  (item.instruction?.bind (·.change? c)).isSome

end BodyItem

def Method.rename (c : Chain) (m : Method) : Method := { m with items := m.items.map (·.rename c) }

namespace Class

/-- What stands in the bodies of all methods. -/
def items (k : Class) : List BodyItem := k.methods.flatMap Method.items

def rename (c : Chain) (k : Class) : Class := { k with methods := k.methods.map (·.rename c) }

/-- The number of texts that a chain changes. -/
def changes (c : Chain) (k : Class) : Nat := k.items.countP (·.isChanged c)

end Class

def Slot.rename (c : Chain) (s : Slot) : Slot :=
  if s.current.changes c = 0 then s else s.write (s.current.rename c)

namespace Workspace

def rename (c : Chain) (w : Workspace) : Workspace := ⟨w.slots.map (·.rename c)⟩

def passReport (c : Chain) (w : Workspace) : PassReport where
  literals := (w.classes.flatMap Class.items).countP (·.isChanged c)
  classes := w.classes.countP fun k => k.changes c != 0

end Workspace

end DalvikPatch
