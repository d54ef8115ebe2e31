import DalvikPatch.Editing.Basic

/-! Making a method return before it does anything: with nothing, with zero or null, or with
one. -/

namespace DalvikPatch

open Text

/-- How a result is returned. -/
inductive ReturnKind where
  | nothing
  | single
  | pair
  | object
  deriving DecidableEq

namespace ReturnKind

def ofType : TypeDescriptor → ReturnKind
  | .void => nothing
  | t => if t.isWide then pair else if t.isReference then object else single

/-- Locals that the stub needs. -/
def locals : ReturnKind → UInt16
  | nothing => 0
  | single | object => 1
  | pair => 2

def mnemonic : ReturnKind → Text
  | nothing => "return-void"
  | single => "return"
  | pair => "return-wide"
  | object => "return-object"

end ReturnKind

/-- The mnemonic and the literal that load zero, or one if `value` is set, as a result of a type.
The ones of the floating point types are given by their upper bits. -/
def loadOf (t : TypeDescriptor) (value : Bool) : Text × Int64 :=
  if value then
    match t with
    | .float => ("const/high16", 0x3f800000)
    | .double => ("const-wide/high16", 0x3ff0000000000000)
    | t => (if t.isWide then "const-wide/16" else "const/4", 1)
  else (if t.isWide then "const-wide/16" else "const/4", 0)

def firstLocal : Operand := .register (.v 0)

/-- The instructions that return a result of a type. -/
def stub (t : TypeDescriptor) (value : Bool) : Except InstructionFault (List Instruction) :=
  let kind := ReturnKind.ofType t
  if kind = .nothing then do
    return [← Instruction.ofName kind.mnemonic []]
  else do
    let load := loadOf t value
    return [← Instruction.ofName load.1 [firstLocal, .literal load.2],
      ← Instruction.ofName kind.mnemonic [firstLocal]]

namespace Edit

/-- Gives the method the locals that a stub needs. -/
def makeRoom (kind : ReturnKind) : Edit Unit :=
  if kind = .nothing then pure () else ensureLocals kind.locals

/-- Makes the method return at once. An object cannot be made up, so `value` has to be false for
one. -/
def returnEarly (value : Bool) : Edit Unit := do
  let e ← get
  let t := e.method.prototype.result
  let kind := ReturnKind.ofType t
  if kind = .object ∧ value then stop (.instruction (.onlyNull e.reference t))
  makeRoom kind
  insert 0 (← check (stub t value))

end Edit

end DalvikPatch
