import DalvikPatch.Descriptor.Basic
import DalvikPatch.Opcode.Basic
import DalvikPatch.Text.Escape
import DalvikPatch.Text.Inspect

/-! What stands behind the mnemonic of an instruction: registers, literals, labels and references
to strings, types, fields and methods, and how each is written. -/

namespace DalvikPatch

open Text

structure Label where
  name : Text
  deriving DecidableEq

namespace Label

def text (l : Label) : Text := ":" ++ l.name

/-- The label of a name that may be written with colons in front. -/
def ofText (s : Text) : Label := ⟨s.dropWhile (· == ':')⟩

end Label

/-- A register by its number among the locals or among the parameters. -/
inductive Register where
  | v (n : UInt16)
  | p (n : UInt16)
  deriving DecidableEq

namespace Register

def text : Register → Text
  | v n => 'v' :: Numeral.decimal n.toNat
  | p n => 'p' :: Numeral.decimal n.toNat

/-- The number in a frame with that many locals: the parameters come after them. -/
def number (locals : Nat) : Register → Nat
  | v n => n.toNat
  | p n => locals + n.toNat

def isParameter : Register → Bool
  | v _ => false
  | p _ => true

end Register

structure RegisterRange where
  first : Register
  last : Register
  deriving DecidableEq

namespace RegisterRange

def text (r : RegisterRange) : Text := braced (r.first.text ++ " .. " ++ r.last.text)

/-- Whether one end is a local and the other a parameter. -/
def isMixed (r : RegisterRange) : Bool := r.first.isParameter != r.last.isParameter

end RegisterRange

structure MethodRef where
  owner : Text
  name : Text
  descriptor : Text
  deriving DecidableEq

def MethodRef.text (m : MethodRef) : Text := m.owner ++ "->" ++ m.name ++ m.descriptor

structure FieldRef where
  owner : Text
  name : Text
  descriptor : Text
  deriving DecidableEq

def FieldRef.text (f : FieldRef) : Text := f.owner ++ "->" ++ f.name ++ ":" ++ f.descriptor

/-- What an instruction refers to. A string with a surrogate that has no partner is no text and is
kept as code units; call sites and method handles are kept as written. -/
inductive Reference where
  | string (s : Text)
  | units (us : List UInt16)
  | type (descriptor : Text)
  | field (f : FieldRef)
  | method (m : MethodRef)
  | prototype (descriptor : Text)
  | other (s : Text)
  deriving DecidableEq

namespace Reference

def text : Reference → Text
  | string s => "\"" ++ escape s ++ "\""
  | units us => "\"" ++ escapeUnits us ++ "\""
  | type d => d
  | field f => f.text
  | method m => m.text
  | prototype d => d
  | other s => s

/-- Whether an opcode that refers to the given kind may refer to this. -/
def suits : Reference → ReferenceKind → Bool
  | string _, .string | units _, .string | type _, .type | field _, .field | method _, .method
  | prototype _, .prototype | other _, .callSite | other _, .methodHandle => true
  | _, _ => false

end Reference

inductive Operand where
  | register (r : Register)
  | list (rs : List Register)
  | range (r : RegisterRange)
  | literal (n : Int64)
  | label (l : Label)
  | reference (r : Reference)
  deriving DecidableEq

namespace Operand

def kind : Operand → OperandKind
  | register _ => .register
  | list _ => .registerList
  | range _ => .registerRange
  | literal _ => .literal
  | label _ => .label
  | reference _ => .reference

/-- How an operand of an instruction of format `f` is written: literals of 64 bits carry their
width letter. -/
def text (f : Format) : Operand → Text
  | register r => r.text
  | list rs => braced (join ", " (rs.map Register.text))
  | range r => r.text
  | literal n => Numeral.hex n ++ if f = .f51l ∨ f = .f21lh then "L" else ""
  | label l => l.text
  | reference r => r.text

/-- The registers an operand names; a range names its two ends. -/
def registers : Operand → List Register
  | register r => [r]
  | list rs => rs
  | range r => [r.first, r.last]
  | _ => []

/-- Puts another string in the place of a string. -/
def withString? (s : Text) : Operand → Option Operand
  | reference (.string _) | reference (.units _) => some (reference (.string s))
  | _ => none

/-! ### In reports -/

def inspectRegister : Register → Text
  | .v n => "Local(" ++ Numeral.decimal n.toNat ++ ")"
  | .p n => "Parameter(" ++ Numeral.decimal n.toNat ++ ")"

def inspectMember (what owner name descriptor : Text) : Text :=
  what ++ " " ++ braced (" class: " ++ inspect owner ++ ", name: " ++ inspect name ++ ", descriptor: " ++
    inspect descriptor ++ " ")

def inspectReference : Reference → Text
  | .string s => "String(" ++ inspect s ++ ")"
  | .units us => "Utf16([" ++ join ", " (us.map fun u => Numeral.decimal u.toNat) ++ "])"
  | .type d => "Type(" ++ inspect d ++ ")"
  | .field f => "Field(" ++ inspectMember "FieldRef" f.owner f.name f.descriptor ++ ")"
  | .method m => "Method(" ++ inspectMember "MethodRef" m.owner m.name m.descriptor ++ ")"
  | .prototype d => "MethodProto(" ++ inspect d ++ ")"
  | .other s => "Other(" ++ inspect s ++ ")"

/-- How an operand is shown in a report about the shape of an instruction. -/
def report : Operand → Text
  | register r => "Register(" ++ inspectRegister r ++ ")"
  | list rs => "RegisterList([" ++ join ", " (rs.map inspectRegister) ++ "])"
  | range r => "RegisterRange(RegisterRange " ++ braced (" start: " ++ inspectRegister r.first ++ ", end: " ++
      inspectRegister r.last ++ " ") ++ ")"
  | literal n => "Literal(" ++ Numeral.integer n.toInt ++ ")"
  | label l => "Label(Label(" ++ inspect l.name ++ "))"
  | reference r => "Reference(" ++ inspectReference r ++ ")"

end Operand

end DalvikPatch
