import DalvikPatch.Fault
import DalvikPatch.Instruction.Reader

/-! Readers of a whole text, which name the text in the fault when they refuse it. -/

namespace DalvikPatch

open Text

/-- A mistake in a text. -/
def Outcome.mistaken {α : Type} (s : Text) (m : Mistake) : Outcome α :=
  .error (.fault (.parse (.text s) m))

def TypeDescriptor.ofJni (s : Text) : Outcome TypeDescriptor :=
  match ofJni? s with
  | some t => .ok t
  | none => .mistaken s .invalidType

def Prototype.ofJni (s : Text) : Outcome Prototype :=
  match ofJni? s with
  | some p => .ok p
  | none => .mistaken s .invalidPrototype

def ClassName.ofJni (s : Text) : Outcome ClassName := do
  match ← TypeDescriptor.ofJni s with
  | .object n => .ok n
  | _ => .mistaken s .notObject

def MethodRef.ofText (s : Text) : Outcome MethodRef :=
  match ofText? s with
  | some m => .ok m
  | none => .mistaken s .invalidMethodRef

/-- Reads the text between the quotes of a literal that stands for text. -/
def Text.ofEscaped (s : Text) : Outcome Text :=
  match unescape s with
  | .ok t => .ok t
  | .error f => .mistaken s (.escape f)

/-- Reads the text between the quotes of a literal into code units. -/
def Text.unitsOfEscaped (s : Text) : Outcome (List UInt16) :=
  match unescapeUnits s with
  | .ok us => .ok us
  | .error f => .mistaken s (.escape f)

end DalvikPatch
