import DalvikPatch.Text.Basic

/-! Integer literals: an optional minus, an optional mark of base sixteen, digits of that base, and
an optional letter for the width. A literal outside the range asked for is refused, never wrapped;
what is printed is read back. -/

namespace DalvikPatch.Numeral

/-- The value of a digit, in bases up to sixteen. -/
def digitValue? (c : Char) : Option Nat :=
  if '0' ≤ c ∧ c ≤ '9' then some (c.toNat - '0'.toNat)
  else if 'a' ≤ c ∧ c ≤ 'f' then some (c.toNat - 'a'.toNat + 10)
  else if 'A' ≤ c ∧ c ≤ 'F' then some (c.toNat - 'A'.toNat + 10)
  else none

def isDigitOf (base : Nat) (c : Char) : Bool := (digitValue? c).any (· < base)

/-- The number that digits stand for, most significant first. -/
def value (base : Nat) (digits : Text) : Nat :=
  digits.foldl (fun n c => base * n + (digitValue? c).getD 0) 0

theorem value_append_singleton (base : Nat) (digits : Text) (c : Char) :
    value base (digits ++ [c]) = base * value base digits + (digitValue? c).getD 0 := by
  simp [value]

/-- Takes an optional minus. -/
def readSign : Text → Bool × Text
  | '-' :: s => (true, s)
  | s => (false, s)

/-- Takes an optional mark of base sixteen and gives the base. -/
def readBase : Text → Nat × Text
  | '0' :: 'x' :: s => (16, s)
  | '0' :: 'X' :: s => (16, s)
  | s => (10, s)

/-- The letters that may follow the digits to name a width. -/
def isWidth (c : Char) : Bool :=
  c == 'l' || c == 'L' || c == 't' || c == 'T' || c == 's' || c == 'S'

def skipWidth : Text → Text
  | c :: s => if isWidth c then s else c :: s
  | [] => []

/-- The integer of a sign and digits. -/
def signed (negative : Bool) (base : Nat) (digits : Text) : Int :=
  if negative then -(value base digits : Int) else value base digits

/-- Reads an integer from `lo` to `hi` and gives the text after it. -/
def read? (lo hi : Int) (s : Text) : Option (Int × Text) :=
  let sign := readSign s
  let base := readBase sign.2
  let digits := base.2.takeWhile (isDigitOf base.1)
  let n := signed sign.1 base.1 digits
  if digits ≠ [] ∧ lo ≤ n ∧ n ≤ hi then
    some (n, skipWidth (base.2.dropWhile (isDigitOf base.1)))
  else none

theorem length_le_of_read? {lo hi : Int} {s : Text} {p : Int × Text} (h : read? lo hi s = some p) :
    p.2.length ≤ s.length := by
  have h1 : (readSign s).2.length ≤ s.length := by
    unfold readSign; split <;> simp
  have h2 : ∀ t : Text, (readBase t).2.length ≤ t.length := by
    intro t; unfold readBase; split <;> simp <;> omega
  have h3 : ∀ t : Text, (skipWidth t).length ≤ t.length := by
    intro t
    cases t with
    | nil => simp [skipWidth]
    | cons c t => simp only [skipWidth]; split <;> simp
  simp only [read?] at h
  split at h
  · cases h
    exact Nat.le_trans (Nat.le_trans (h3 _) (List.dropWhile_sublist _).length_le)
      (Nat.le_trans (h2 _) h1)
  · simp at h

def readUInt16? (s : Text) : Option (UInt16 × Text) :=
  (read? 0 65535 s).map fun p => (p.1.toNat.toUInt16, p.2)

def readUInt32? (s : Text) : Option (UInt32 × Text) :=
  (read? 0 4294967295 s).map fun p => (p.1.toNat.toUInt32, p.2)

def readInt64? (s : Text) : Option (Int64 × Text) :=
  (read? (-9223372036854775808) 9223372036854775807 s).map fun p => (Int64.ofInt p.1, p.2)

/-- A number in base ten. -/
def decimal (n : Nat) : Text := Nat.toDigits 10 n

/-- An integer in base ten. -/
def integer (n : Int) : Text := if n < 0 then '-' :: decimal n.natAbs else decimal n.natAbs

/-- A 64-bit number in base sixteen with its sign and mark. -/
def hex (n : Int64) : Text :=
  (if n < 0 then "-0x" else "0x") ++ Nat.toDigits 16 n.toInt.natAbs

/-- The four digits in base sixteen of a code unit. -/
def hex4 (u : UInt16) : Text :=
  [Nat.digitChar (u.toNat / 4096), Nat.digitChar (u.toNat / 256 % 16),
    Nat.digitChar (u.toNat / 16 % 16), Nat.digitChar (u.toNat % 16)]

end DalvikPatch.Numeral
