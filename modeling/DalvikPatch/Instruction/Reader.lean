import DalvikPatch.Instruction.Basic
import DalvikPatch.Text.Alphanumeric
import DalvikPatch.Text.Literal

/-! Reading instructions. Operands are separated by a comma with spaces or tabs around it; a
comment may end the line. Each operand reader gives the text after it. -/

namespace DalvikPatch

open Text

/-! ### Operands -/

namespace Label

def isLabelChar (c : Char) : Bool := isAlphanumeric c || c == '_' || c == '$'

/-- Reads a colon and the characters of a label after it. -/
def read? (s : Text) : Option (Label × Text) := do
  let s ← after? [':'] s
  if (s.takeWhile isLabelChar).isEmpty then none
  else some (⟨s.takeWhile isLabelChar⟩, s.dropWhile isLabelChar)

end Label

namespace Register

def read? : Text → Option (Register × Text)
  | 'v' :: s => (Numeral.readUInt16? s).map fun q => (.v q.1, q.2)
  | 'p' :: s => (Numeral.readUInt16? s).map fun q => (.p q.1, q.2)
  | _ => none

theorem length_lt_of_read? {s : Text} {q : Register × Text} (h : read? s = some q) :
    q.2.length < s.length := by
  have key {t : Text} {k : UInt16 × Text} (hk : Numeral.readUInt16? t = some k) :
      k.2.length ≤ t.length := by
    obtain ⟨j, hj, rfl⟩ := Option.map_eq_some_iff.1 hk
    exact Numeral.length_le_of_read? hj
  unfold read? at h
  split at h
  · obtain ⟨k, hk, rfl⟩ := Option.map_eq_some_iff.1 h
    have := key hk
    simp; omega
  · obtain ⟨k, hk, rfl⟩ := Option.map_eq_some_iff.1 h
    have := key hk
    simp; omega
  · simp at h

/-- Reads a comma with spaces around it. -/
def readComma? (s : Text) : Option Text := (after? [','] (skipSpaces s)).map skipSpaces

theorem length_lt_of_readComma? {s r : Text} (h : readComma? s = some r) :
    r.length < s.length := by
  obtain ⟨t, ht, rfl⟩ := Option.map_eq_some_iff.1 h
  have := congrArg List.length (eq_append_of_after? ht)
  have := (List.dropWhile_sublist (l := s) isSpace).length_le
  have := (List.dropWhile_sublist (l := t) isSpace).length_le
  simp [skipSpaces] at *; omega

/-- Reads the registers of a list after its first one. -/
def readMore (s : Text) : List Register × Text :=
  match _ : readComma? s with
  | none => ([], s)
  | some r => match _ : read? r with
    | none => ([], s)
    | some q => (q.1 :: (readMore q.2).1, (readMore q.2).2)
termination_by s.length
decreasing_by
  all_goals
    have := length_lt_of_readComma? ‹_›
    have := length_lt_of_read? ‹_›
    omega

/-- Reads registers between braces. -/
def readList? (s : Text) : Option (List Register × Text) := do
  let s := skipSpaces (← after? ['{'] s)
  let rs := match read? s with
    | none => ([], s)
    | some q => (q.1 :: (readMore q.2).1, (readMore q.2).2)
  let s ← after? ['}'] (skipSpaces rs.2)
  some (rs.1, s)

end Register

namespace RegisterRange

def read? (s : Text) : Option (RegisterRange × Text) := do
  let s := skipSpaces (← after? ['{'] s)
  let first ← Register.read? s
  let s ← after? ".." (skipSpaces first.2)
  let last ← Register.read? (skipSpaces s)
  let s ← after? ['}'] (skipSpaces last.2)
  some (⟨first.1, last.1⟩, s)

end RegisterRange

namespace MethodRef

/-- Reads the class up to the arrow, the name up to the parenthesis, and the prototype. -/
def read? (s : Text) : Option (MethodRef × Text) := do
  let p ← cut? "->" s
  let q ← Prototype.read? (p.2.dropWhile (· != '('))
  some (⟨trim p.1, trim (p.2.takeWhile (· != '(')), q.1.jni⟩, q.2)

/-- The reference that a whole text is, save blanks at its ends. -/
def ofText? (s : Text) : Option MethodRef :=
  match read? (trim s) with
  | some (m, []) => some m
  | _ => none

def prototype? (m : MethodRef) : Option Prototype := Prototype.ofJni? m.descriptor

end MethodRef

namespace FieldRef

/-- Reads the class up to the arrow, the name up to the colon, and the type. -/
def read? (s : Text) : Option (FieldRef × Text) := do
  let p ← cut? "->" s
  let q ← cut? [':'] p.2
  let t ← TypeDescriptor.read? q.2
  some (⟨trim p.1, trim q.1, t.1.jni⟩, t.2)

end FieldRef

namespace Reference

/-- Reads a string literal. -/
def readString? (s : Text) : Option (Reference × Text) := do
  let p ← readLiteral? .inside (← after? ['"'] s)
  let us ← (unescapeUnits p.1).toOption
  match ofUnits? us with
  | some t => some (string t, p.2)
  | none => some (units us, p.2)

/-- Reads a reference of the given kind; call sites and method handles run to the end. -/
def read? (kind : Option ReferenceKind) (s : Text) : Option (Reference × Text) :=
  match kind with
  | some .string => readString? s
  | some .type => (TypeDescriptor.read? s).map fun p => (type p.1.jni, p.2)
  | some .field => (FieldRef.read? s).map fun p => (field p.1, p.2)
  | some .method => (MethodRef.read? s).map fun p => (method p.1, p.2)
  | some .prototype => (Prototype.read? s).map fun p => (prototype p.1.jni, p.2)
  | some .callSite | some .methodHandle | none => some (other (trimRight s), [])

end Reference

namespace Operand

/-- Reads an operand of the given kind; a reference is read as `target`. -/
def read? (kind : OperandKind) (target : Option ReferenceKind) (s : Text) :
    Option (Operand × Text) :=
  match kind with
  | .register => (Register.read? s).map fun p => (register p.1, p.2)
  | .registerList => (Register.readList? s).map fun p => (list p.1, p.2)
  | .registerRange => (RegisterRange.read? s).map fun p => (range p.1, p.2)
  | .literal => (Numeral.readInt64? s).map fun p => (literal p.1, p.2)
  | .label => (Label.read? s).map fun p => (label p.1, p.2)
  | .reference => (Reference.read? target s).map fun p => (reference p.1, p.2)

end Operand

/-! ### Instructions -/

namespace Instruction

/-- Reads operands of the given kinds; `started` ones have gone before, `earlier` of them
references. -/
def readOperands? (o : Opcode) :
    (started : Bool) → (earlier : Nat) → List OperandKind → Text → Option (List Operand × Text)
  | _, _, [], s => some ([], s)
  | started, earlier, kind :: kinds, s => do
    let s ← if started then Register.readComma? s else some s
    let p ← Operand.read? kind (o.referenceAt earlier) s
    let q ← readOperands? o true (if kind = .reference then earlier + 1 else earlier) kinds p.2
    some (p.1 :: q.1, q.2)

def isMnemonicChar (c : Char) : Bool := c.isAlphanum || c == '-' || c == '/'

/-- Reads the instruction of a line that has neither a comment nor blanks at its ends. -/
def readText (line : Text) : Except InstructionFault Instruction :=
  let name := line.takeWhile isMnemonicChar
  if name.isEmpty then .error (.missingMnemonic line)
  else match Opcode.ofName? name with
    | none => .error (.unknownMnemonic line)
    | some o =>
      match readOperands? o false 0 o.format.operands (trimLeft (line.dropWhile isMnemonicChar)) with
      | none => .error (.malformedOperands line)
      | some (ops, rest) =>
        if (trim rest).isEmpty then make o ops else .error (.trailingInput line)

/-- Reads the instruction of a line. -/
def read (line : Text) : Except InstructionFault Instruction := readText (trim (cutComment line))

/-- Reads the instructions of a text, one in each line that has more than a comment. -/
def readAll (s : Text) : Except InstructionFault (List Instruction) :=
  ((lines s).filter fun l => !(trim (cutComment l)).isEmpty).mapM read

end Instruction

end DalvikPatch
