import DalvikPatch.Pool

/-! Classes under edit. The loaded classes stay as they are; a class is copied when it is first
opened for writing, and from then on the copy is what the class looks like. -/

namespace DalvikPatch

/-- A class as it was loaded, with its copy if there is one. -/
structure Slot where
  loaded : Class
  copy? : Option Class
  deriving DecidableEq

namespace Slot

def current (s : Slot) : Class := s.copy?.getD s.loaded

def isOpen (s : Slot) : Bool := s.copy?.isSome

/-- Puts a class in the place of the copy. -/
def write (s : Slot) (c : Class) : Slot := ⟨s.loaded, some c⟩

end Slot

structure Workspace where
  slots : List Slot
  deriving DecidableEq

namespace Workspace

def ofPool (p : Pool) : Workspace := ⟨p.classes.map fun c => ⟨c, none⟩⟩

/-! ### Views -/

/-- The classes as they were loaded. -/
def pool (w : Workspace) : Pool := ⟨w.slots.map Slot.loaded⟩

/-- The classes as they are now. -/
def classes (w : Workspace) : List Class := w.slots.map Slot.current

def class? (w : Workspace) (k : Nat) : Option Class := w.classes[k]?

def method? (w : Workspace) (id : MethodId) : Option Method :=
  (w.class? id.owner).bind fun c => c.methods[id.index]?

def isOpen (w : Workspace) (k : Nat) : Bool := w.slots[k]?.any Slot.isOpen

/-- The indices of the classes that have a copy. -/
def openIndices (w : Workspace) : List Nat :=
  w.slots.zipIdx.filterMap fun s => if s.1.isOpen then some s.2 else none

/-- The copies, in the order of the pool. -/
def modified (w : Workspace) : List Class := w.slots.filterMap Slot.copy?

/-! ### Writing -/

/-- Changes a class in its copy. -/
def change (w : Workspace) (k : Nat) (f : Class → Class) : Workspace :=
  ⟨w.slots.modify k fun s => s.write (f s.current)⟩

/-- Copies a class if that has not been done. -/
def openClass (w : Workspace) (k : Nat) : Workspace := w.change k id

/-- Changes a method in the copy of its class. -/
def changeMethod (w : Workspace) (id : MethodId) (f : Method → Method) : Workspace :=
  w.change id.owner fun c => { c with methods := c.methods.modify id.index f }

theorem pool_ofPool (p : Pool) : (ofPool p).pool = p := by
  simp [ofPool, pool, Function.comp_def]

theorem pool_change (w : Workspace) (k : Nat) (f : Class → Class) : (w.change k f).pool = w.pool := by
  have h : ∀ (slots : List Slot) (k : Nat),
      (slots.modify k fun s => s.write (f s.current)).map Slot.loaded = slots.map Slot.loaded := by
    intro slots
    induction slots with
    | nil => intro k; cases k <;> rfl
    | cons s slots ih =>
      intro k
      cases k with
      | zero => simp [Slot.write]
      | succ k => simp [ih]
  simp [change, pool, h]

theorem classes_change (w : Workspace) (k : Nat) (f : Class → Class) :
    (w.change k f).classes = w.classes.modify k f := by
  have h : ∀ (slots : List Slot) (k : Nat),
      (slots.modify k fun s => s.write (f s.current)).map Slot.current =
        (slots.map Slot.current).modify k f := by
    intro slots
    induction slots with
    | nil => intro k; cases k <;> rfl
    | cons s slots ih =>
      intro k
      cases k with
      | zero => simp [Slot.write, Slot.current]
      | succ k => simp [ih]
  simp [change, classes, h]

end Workspace

end DalvikPatch
