import DalvikPatch.Numeral
import DalvikPatch.Text.Blank
import DalvikPatch.Text.Units

/-! The escapes of a string literal. Writing leaves printable ASCII as it is, save the quotes and
the backslash; anything else becomes a named escape or its code units by number. Reading gives
code units, because a unit by number may be half of a pair. -/

namespace DalvikPatch.Text

/-- A code unit by its number. -/
def escapeUnit (u : UInt16) : Text := "\\u" ++ Numeral.hex4 u

def escapeChar (c : Char) : Text :=
  if c = '"' then "\\\""
  else if c = '\'' then "\\'"
  else if c = '\\' then "\\\\"
  else if c = '\n' then "\\n"
  else if c = '\r' then "\\r"
  else if c = '\t' then "\\t"
  else if ' ' ≤ c ∧ c ≤ '~' then [c]
  else (charUnits c).flatMap escapeUnit

/-- Writes a text for use between the quotes of a literal. -/
def escape (s : Text) : Text := s.flatMap escapeChar

/-- Writes code units for use between the quotes of a literal. -/
def escapeUnits (us : List UInt16) : Text := (scalars us).flatMap (Sum.elim escapeChar escapeUnit)

/-- Why an escaped text cannot be read. -/
inductive EscapeFault where
  | dangling
  | short
  | invalid
  | unknown (c : Char)
  | unpaired
  deriving DecidableEq

namespace EscapeFault

def message : EscapeFault → Text
  | dangling => "dangling escape"
  | short => "short unicode escape"
  | invalid => "invalid unicode escape"
  | unknown c => "unknown escape \\" ++ [c]
  | unpaired => "unpaired surrogate in string"

end EscapeFault

/-- The unit that a one-letter escape stands for. -/
def namedUnit? (c : Char) : Option UInt16 :=
  if c = 'n' then some 10
  else if c = 'r' then some 13
  else if c = 't' then some 9
  else if c = 'b' then some 8
  else if c = 'f' then some 12
  else if c = '"' ∨ c = '\'' ∨ c = '\\' then some c.toNat.toUInt16
  else none

/-- The unit that four characters of a numbered escape stand for: digits in base sixteen, the
first of which may be a plus sign instead. -/
def numberedUnit? (digits : Text) : Option UInt16 :=
  let body := match digits with
    | '+' :: ds => ds
    | ds => ds
  if body ≠ [] ∧ body.all (Numeral.isDigitOf 16) then some (Numeral.value 16 body).toUInt16
  else none

/-- Reads the text between the quotes of a literal into code units. -/
def unescapeUnits : Text → Except EscapeFault (List UInt16)
  | [] => .ok []
  | ['\\'] => .error .dangling
  | '\\' :: 'u' :: a :: b :: c :: d :: s =>
    if byteSize [a, b, c, d] = 4 then
      match numberedUnit? [a, b, c, d] with
      | some u => (unescapeUnits s).map (u :: ·)
      | none => .error .invalid
    else .error .short
  | '\\' :: 'u' :: s => .error (if byteSize s = 4 then .invalid else .short)
  | '\\' :: c :: s =>
    match namedUnit? c with
    | some u => (unescapeUnits s).map (u :: ·)
    | none => .error (.unknown c)
  | c :: s => (unescapeUnits s).map (charUnits c ++ ·)

/-- Reads the text between the quotes of a literal that stands for text. -/
def unescape (s : Text) : Except EscapeFault Text := do
  match ofUnits? (← unescapeUnits s) with
  | some t => .ok t
  | none => .error .unpaired

end DalvikPatch.Text
