import DalvikPatch.Class.Basic

/-! The classes of an app as they were loaded. A class is known by its index; a name may stand for
several classes, and looking it up gives the first. -/

namespace DalvikPatch

open Text

/-- A method by the index of its class and its own among the methods of that class. -/
structure MethodId where
  owner : Nat
  index : Nat
  deriving DecidableEq

def MethodId.text (id : MethodId) : Text :=
  "#" ++ Numeral.decimal id.owner ++ "." ++ Numeral.decimal id.index

structure Pool where
  classes : List Class
  deriving DecidableEq

namespace Pool

/-- A method with the class it is from. -/
structure Entry where
  id : MethodId
  method : Method
  owner : Class
  deriving DecidableEq

def empty : Pool := ⟨[]⟩

def size (p : Pool) : Nat := p.classes.length

def class? (p : Pool) (index : Nat) : Option Class := p.classes[index]?

def method? (p : Pool) (id : MethodId) : Option Method :=
  (p.class? id.owner).bind fun c => c.methods[id.index]?

/-- Puts down the index of a class under its descriptor, unless one stands there. -/
def enter (names : List (Text × Nat)) (c : Class × Nat) : List (Text × Nat) :=
  if (names.lookup c.1.descriptor).isSome then names else (c.1.descriptor, c.2) :: names

theorem lookup_enter (names : List (Text × Nat)) (c : Class × Nat) (descriptor : Text) :
    (enter names c).lookup descriptor =
      (names.lookup descriptor).or (if c.1.descriptor = descriptor then some c.2 else none) := by
  rw [enter]
  split
  · next hthere =>
    split
    · next heq =>
      obtain ⟨k, hk⟩ := Option.isSome_iff_exists.1 hthere
      rw [← heq, hk, Option.some_or]
    · rw [Option.or_none]
  · next hfree =>
    rw [Option.not_isSome_iff_eq_none] at hfree
    split
    · next heq => rw [← heq, List.lookup_cons_self, hfree, Option.none_or]
    · next hne =>
      have hother : (descriptor == c.1.descriptor) = false := beq_false_of_ne (Ne.symm hne)
      rw [List.lookup_cons, hother, Option.or_none]

/-- The index that stands under each descriptor, put down class after class. -/
def names (p : Pool) : List (Text × Nat) := p.classes.zipIdx.foldl enter []

/-- The index of the class with that descriptor, the first one if there are several. -/
def find? (p : Pool) (descriptor : Text) : Option Nat := p.names.lookup descriptor

/-- All methods, class after class. -/
def entries (p : Pool) : List Entry :=
  p.classes.zipIdx.flatMap fun c => c.1.methods.zipIdx.map fun m => ⟨⟨c.2, m.2⟩, m.1, c.1⟩

/-- How a method is named in reports, there or not. -/
def describe (p : Pool) (id : MethodId) : Text :=
  match p.class? id.owner with
  | some c => c.methodRef id.index
  | none => id.text

theorem mem_entries {p : Pool} {e : Entry} :
    e ∈ p.entries ↔ p.class? e.id.owner = some e.owner ∧ e.owner.methods[e.id.index]? = some e.method := by
  obtain ⟨⟨i, j⟩, m, c⟩ := e
  simp only [entries, class?, List.mem_flatMap, List.mem_map, List.mem_zipIdx_iff_getElem?]
  constructor
  · rintro ⟨⟨c', i'⟩, hc, ⟨m', j'⟩, hm, h⟩
    cases h
    exact ⟨hc, hm⟩
  · rintro ⟨hc, hm⟩
    exact ⟨(c, i), hc, (m, j), hm, rfl⟩

end Pool

end DalvikPatch
