import DalvikPatch.Instruction.Operand
import DalvikPatch.Opcode.Table

/-! Instructions: an opcode with operands of the shape that its format asks for. -/

namespace DalvikPatch

open Text

structure Instruction where
  opcode : Opcode
  operands : List Operand
  deriving DecidableEq

/-- Why there is no such instruction. -/
inductive InstructionFault where
  | unknownOpcode (name : Text)
  | wrongShape (opcode : Opcode) (operands : List Operand)
  | literalTooWide (n : Int64) (opcode : Opcode)
  | wrongReference (opcode : Opcode) (r : Reference)
  | mixedRange (r : RegisterRange)
  | missingMnemonic (line : Text)
  | unknownMnemonic (line : Text)
  | malformedOperands (line : Text)
  | trailingInput (line : Text)
  | notOne (count : Nat) (source : Text)
  | onlyNull (method : Text) (result : TypeDescriptor)
  deriving DecidableEq

namespace InstructionFault

def message : InstructionFault → Text
  | unknownOpcode name => "unknown opcode " ++ name
  | wrongShape o ops =>
    o.name ++ " expects operands [" ++ join ", " (o.format.operands.map OperandKind.name) ++
      "], got [" ++ join ", " (ops.map Operand.report) ++ "]"
  | literalTooWide n o => "literal " ++ Numeral.integer n.toInt ++ " does not fit " ++ o.name
  | wrongReference o r => o.name ++ " cannot reference " ++ r.text
  | mixedRange r => "register range " ++ r.text ++ " mixes parameter and local registers"
  | missingMnemonic line => "missing opcode: " ++ line
  | unknownMnemonic line => "unknown opcode: " ++ line
  | malformedOperands line => "malformed operands: " ++ line
  | trailingInput line => "trailing input: " ++ line
  | notOne n s => "expected one instruction, got " ++ Numeral.decimal n ++ ": " ++ trim s
  | onlyNull m t => m ++ " returns " ++ t.jni ++ ", only null can be returned early"

end InstructionFault

namespace Instruction

def name (i : Instruction) : Text := i.opcode.name

/-- An instruction in one line. -/
def text (i : Instruction) : Text :=
  i.name ++ (if i.operands = [] then [] else ' ' :: join ", " (i.operands.map (·.text i.opcode.format)))

/-! ### Making one -/

/-- Checks literals, references and ranges in order; `earlier` references have gone before. -/
def checkOperands (o : Opcode) : (earlier : Nat) → List Operand → Except InstructionFault Unit
  | _, [] => .ok ()
  | k, .literal n :: ops =>
    if o.format.fitsLiteral n then checkOperands o k ops else .error (.literalTooWide n o)
  | k, .reference r :: ops =>
    if (o.referenceAt k).any r.suits then checkOperands o (k + 1) ops
    else .error (.wrongReference o r)
  | k, .range r :: ops =>
    if r.isMixed then .error (.mixedRange r) else checkOperands o k ops
  | k, _ :: ops => checkOperands o k ops

/-- The instruction of an opcode and operands that fit it. -/
def make (o : Opcode) (ops : List Operand) : Except InstructionFault Instruction :=
  if ops.map Operand.kind = o.format.operands then
    (checkOperands o 0 ops).map fun _ => ⟨o, ops⟩
  else .error (.wrongShape o ops)

/-- The instruction of a mnemonic and operands that fit it. -/
def ofName (name : Text) (ops : List Operand) : Except InstructionFault Instruction :=
  match Opcode.ofName? name with
  | some o => make o ops
  | none => .error (.unknownOpcode name)

theorem eq_of_make {o : Opcode} {ops : List Operand} {i : Instruction} (h : make o ops = .ok i) :
    i = ⟨o, ops⟩ := by
  simp only [make] at h
  split at h
  · cases hc : checkOperands o 0 ops <;> simp_all [Except.map]
  · simp at h

/-! ### Looking into one -/

def reference? (i : Instruction) : Option Reference :=
  i.operands.findSome? fun
    | .reference r => some r
    | _ => none

/-- The text that is loaded. -/
def string? (i : Instruction) : Option Text :=
  match i.reference? with
  | some (.string s) => some s
  | _ => none

def methodRef? (i : Instruction) : Option MethodRef :=
  match i.reference? with
  | some (.method m) => some m
  | _ => none

def fieldRef? (i : Instruction) : Option FieldRef :=
  match i.reference? with
  | some (.field f) => some f
  | _ => none

def literal? (i : Instruction) : Option Int64 :=
  i.operands.findSome? fun
    | .literal n => some n
    | _ => none

/-- The registers that are named, in the order in which they are written. -/
def registers (i : Instruction) : List Register := i.operands.flatMap Operand.registers

/-- Replaces the first operand that `f` has something for. -/
def replaceFirstOperand? (f : Operand → Option Operand) : List Operand → Option (List Operand)
  | [] => none
  | o :: ops => match f o with
    | some o' => some (o' :: ops)
    | none => (replaceFirstOperand? f ops).map (o :: ·)

/-- The instruction that loads another text; none if it loads no string. -/
def withString? (s : Text) (i : Instruction) : Option Instruction :=
  (replaceFirstOperand? (Operand.withString? s) i.operands).map fun ops => ⟨i.opcode, ops⟩

end Instruction

end DalvikPatch
