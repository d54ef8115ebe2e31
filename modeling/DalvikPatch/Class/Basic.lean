import DalvikPatch.Access
import DalvikPatch.Instruction.Basic

/-! Classes as their source describes them: header, annotations, fields, and methods whose body
is a list of instructions among labels, line numbers and directives. -/

namespace DalvikPatch

open Text

/-- A directive kept as written: an annotation, a parameter, a table of values. Its lines have lost
the indentation of the first one. -/
structure Directive where
  lines : List Text
  deriving DecidableEq

/-- The first word of the first line. -/
def Directive.keyword (d : Directive) : Text := ((d.lines.head?.map words).bind List.head?).getD []

structure Field where
  name : Text
  flags : AccessFlags
  type : TypeDescriptor
  value? : Option Text
  annotations : List Directive
  deriving DecidableEq

/-- How the size of a frame is declared: by its locals, or with the parameters counted in. -/
inductive FrameSize where
  | locals (n : UInt16)
  | registers (n : UInt16)
  deriving DecidableEq

inductive BodyItem where
  | instruction (i : Instruction)
  | label (l : Label)
  | line (n : UInt32)
  | directive (d : Directive)
  deriving DecidableEq

namespace BodyItem

def instruction? : BodyItem → Option Instruction
  | instruction i => some i
  | _ => none

def isInstruction (i : BodyItem) : Bool := i.instruction?.isSome

def isDirective : BodyItem → Bool
  | directive _ => true
  | _ => false

theorem exists_of_isInstruction {item : BodyItem} (h : item.isInstruction) :
    ∃ i, item = instruction i := by
  cases item with
  | instruction i => exact ⟨i, rfl⟩
  | label | line | directive => cases h

end BodyItem

structure Method where
  name : Text
  flags : AccessFlags
  prototype : Prototype
  frame? : Option FrameSize
  items : List BodyItem
  deriving DecidableEq

namespace Method

def isStatic (m : Method) : Bool := m.flags.contains .isStatic

def isConstructor (m : Method) : Bool := m.flags.contains .isConstructor

/-- Abstract and native methods have no body. -/
def hasImplementation (m : Method) : Bool := !m.flags.intersects (AccessFlags.isAbstract.union .isNative)

/-- The name with the prototype. -/
def descriptor (m : Method) : Text := m.name ++ m.prototype.jni

/-- Registers that hold the parameters, the object itself among them. -/
def parameterRegisters (m : Method) : Nat :=
  m.prototype.parameterRegisters + if m.isStatic then 0 else 1

/-- The number of local registers. -/
def locals (m : Method) : Nat :=
  match m.frame? with
  | some (.locals n) => n.toNat
  | some (.registers n) => n.toNat - m.parameterRegisters
  | none => 0

/-- All registers, locals and parameters. -/
def frame (m : Method) : Nat := m.locals + m.parameterRegisters

/-- The method with that many locals, declared in the way it was; none if the frame has no
declaration of that size. -/
def withLocals? (m : Method) (n : UInt16) : Option Method :=
  match m.frame? with
  | some (.registers _) =>
    if n.toNat + m.parameterRegisters < 65536 then
      some { m with frame? := some (.registers (n.toNat + m.parameterRegisters).toUInt16) }
    else none
  | _ => some { m with frame? := some (.locals n) }

def instructions (m : Method) : List Instruction := m.items.filterMap BodyItem.instruction?

def instructionCount (m : Method) : Nat := m.instructions.length

/-- The texts that the body loads, each with the index of the instruction that loads it. -/
def strings (m : Method) : List (Nat × Text) :=
  m.instructions.zipIdx.filterMap fun p => p.1.string?.map fun s => (p.2, s)

end Method

structure Class where
  name : ClassName
  flags : AccessFlags
  source? : Option Text
  super? : Option ClassName
  interfaces : List ClassName
  annotations : List Directive
  fields : List Field
  methods : List Method
  /-- The file that the class was read from. -/
  file? : Option Text
  deriving DecidableEq

namespace Class

def descriptor (c : Class) : Text := c.name.jni

/-- The index of the method with that name and prototype. -/
def findMethod? (c : Class) (name prototype : Text) : Option Nat :=
  c.methods.findIdx? fun m => m.name == name && m.prototype.jni == prototype

/-- How the method at an index is named in reports, there or not. -/
def methodRef (c : Class) (index : Nat) : Text :=
  match c.methods[index]? with
  | some m => c.descriptor ++ "->" ++ m.descriptor
  | none => c.descriptor ++ "->#" ++ Numeral.decimal index

end Class

end DalvikPatch
