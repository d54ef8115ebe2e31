import DalvikPatch.Class.Count
import DalvikPatch.Editing.Registers
import DalvikPatch.Instruction.Reader

/-! Editing the body of a method by the index of an instruction; labels, line numbers and
directives are not counted. An edit that stops leaves what it had done before. -/

namespace DalvikPatch

open Text

namespace Method

/-- The place among some items of the instruction with an index. -/
def placeIn? : List BodyItem → Nat → Option Nat
  | [], _ => none
  | item :: items, k =>
    if item.isInstruction then
      match k with
      | 0 => some 0
      | k + 1 => (placeIn? items k).map (· + 1)
    else (placeIn? items k).map (· + 1)

/-- The instruction of an index stands at its place, and as many as the index before it. -/
theorem eq_of_placeIn? {items : List BodyItem} {k p : Nat} (h : placeIn? items k = some p) :
    ∃ before i after, items = before ++ .instruction i :: after ∧ before.length = p ∧
      (before.filterMap BodyItem.instruction?).length = k := by
  fun_induction placeIn? items k generalizing p with
  | case1 => simp at h
  | case2 item items hi =>
    obtain ⟨i, rfl⟩ := BodyItem.exists_of_isInstruction hi
    cases h
    exact ⟨[], i, items, rfl, rfl, rfl⟩
  | case3 item items hi k ih =>
    obtain ⟨j, rfl⟩ := BodyItem.exists_of_isInstruction hi
    obtain ⟨q, hq, rfl⟩ := Option.map_eq_some_iff.1 h
    obtain ⟨before, i, after, rfl, rfl, rfl⟩ := ih hq
    exact ⟨.instruction j :: before, i, after, rfl, rfl, rfl⟩
  | case4 item items k hi ih =>
    obtain ⟨q, hq, rfl⟩ := Option.map_eq_some_iff.1 h
    obtain ⟨before, i, after, rfl, rfl, rfl⟩ := ih hq
    have : item.instruction? = none := by simpa [BodyItem.isInstruction] using hi
    exact ⟨item :: before, i, after, rfl, rfl, by simp [this]⟩

def place? (m : Method) (k : Nat) : Option Nat := placeIn? m.items k

/-- The place at which a block has to stand for its first instruction to get the index. At the
start that is behind the directives there, but before labels; elsewhere it is right behind the
instruction before. -/
def gap? (m : Method) : Nat → Option Nat
  | 0 => some (m.items.findIdx fun item => !item.isDirective)
  | k + 1 => (m.place? k).map (· + 1)

/-- As many instructions as the index stand before the place of a block. -/
theorem length_of_gap? {m : Method} {k p : Nat} (h : m.gap? k = some p) :
    ((m.items.take p).filterMap BodyItem.instruction?).length = k := by
  cases k with
  | zero =>
    cases h
    rw [List.length_eq_zero_iff, List.filterMap_eq_nil_iff]
    intro item hi
    have : item.isDirective := by
      obtain ⟨j, hj, rfl⟩ := List.mem_take_iff_getElem.1 hi
      simpa using List.not_of_lt_findIdx (Nat.lt_of_lt_of_le hj (Nat.min_le_left _ _))
    cases item <;> simp_all [BodyItem.isDirective, BodyItem.instruction?]
  | succ k =>
    obtain ⟨q, hq, rfl⟩ := Option.map_eq_some_iff.1 h
    obtain ⟨before, i, after, hm, rfl, rfl⟩ := eq_of_placeIn? hq
    simp [hm, BodyItem.instruction?, List.take_append, List.take_of_length_le]

/-- Puts instructions at a place among the items. -/
def insertAt (m : Method) (place : Nat) (block : List Instruction) : Method :=
  { m with items := m.items.take place ++ block.map .instruction ++ m.items.drop place }

end Method

/-- A method under edit, and how faults call it. -/
structure Editor where
  reference : Text
  method : Method
  deriving DecidableEq

/-- An edit with a result. -/
abbrev Edit (α : Type) := ExceptT Stop (StateM Editor) α

namespace Editor

/-- Opens a method that has a body. -/
def open? (reference : Text) (m : Method) : Outcome Editor :=
  if m.hasImplementation then .ok ⟨reference, m⟩ else .fault (.noImplementation reference)

def size (e : Editor) : Nat := e.method.instructionCount

def outOfRange (e : Editor) (k : Nat) : Fault := .outOfRange e.reference k e.size

/-- The index of the first instruction with a property. -/
def indexOf? (e : Editor) (p : Instruction → Bool) : Option Nat := e.method.instructions.findIdx? p

end Editor

namespace Edit

variable {α : Type}

def stop (f : Fault) : Edit α := throw (.fault f)

def lift (x : Outcome α) : Edit α := ExceptT.mk (pure x)

def check (x : Except InstructionFault α) : Edit α := lift (Outcome.ofInstruction x)

def setMethod (m : Method) : Edit Unit := modify fun e => { e with method := m }

/-! ### Looking -/

def instruction (k : Nat) : Edit Instruction := do
  let e ← get
  match e.method.instructions[k]? with
  | some i => return i
  | none => stop (e.outOfRange k)

/-- The index of the first instruction with a property; `what` names it in a fault. -/
def findFirst (what : Text) (p : Instruction → Bool) : Edit Nat := do
  let e ← get
  match e.indexOf? p with
  | some k => return k
  | none => stop (.notFound what e.reference)

/-! ### Writing -/

def replace (k : Nat) (i : Instruction) : Edit Unit := do
  let e ← get
  match e.method.place? k with
  | none => stop (e.outOfRange k)
  | some place =>
    lift (e.method.checkRegisters e.reference i)
    setMethod { e.method with items := e.method.items.set place (.instruction i) }

/-- Replaces with the one instruction that a text holds. -/
def replaceText (k : Nat) (s : Text) : Edit Unit := do
  match ← check (Instruction.readAll s) with
  | [i] => replace k i
  | block => stop (.instruction (.notOne block.length s))

/-- Puts an instruction that does nothing in the place of another. -/
def nop (k : Nat) : Edit Unit := do
  replace k (← check (Instruction.ofName "nop" []))

/-- Inserts instructions so that the first of them gets the index; the index behind the last
instruction appends. -/
def insert (k : Nat) (block : List Instruction) : Edit Unit := do
  let e ← get
  match e.method.gap? k with
  | none => stop (e.outOfRange k)
  | some place =>
    block.forM fun i => lift (e.method.checkRegisters e.reference i)
    setMethod (e.method.insertAt place block)

/-- Inserts the instructions that a text holds, one on a line. -/
def insertText (k : Nat) (s : Text) : Edit Unit := do
  insert k (← check (Instruction.readAll s))

def remove (k : Nat) : Edit Instruction := do
  let e ← get
  match e.method.place? k, e.method.instructions[k]? with
  | some place, some i =>
    setMethod { e.method with items := e.method.items.eraseIdx place }
    return i
  | _, _ => stop (e.outOfRange k)

/-- Gives the method that many locals if it has fewer. -/
def ensureLocals (n : UInt16) : Edit Unit := do
  let e ← get
  match e.method.withAtLeast? n with
  | some m => setMethod m
  | none => throw (.abort .frameTooLarge)

end Edit

end DalvikPatch
