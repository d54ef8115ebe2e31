import DalvikPatch.Text.Basic

/-! Text as UTF-16 code units. Units that pair up to no character, surrogates without their
partner, are kept as they are: `scalars` tells them from characters and `ofUnits?` refuses them. -/

namespace DalvikPatch.Text

/-- The one or two code units of a character. -/
def charUnits (c : Char) : List UInt16 :=
  if c.toNat < 0x10000 then [c.toNat.toUInt16]
  else [(0xd800 + (c.toNat - 0x10000) / 0x400).toUInt16,
    (0xdc00 + (c.toNat - 0x10000) % 0x400).toUInt16]

def units (s : Text) : List UInt16 := s.flatMap charUnits

/-- First half of a pair. -/
def isHigh (u : UInt16) : Bool := 0xd800 ≤ u && u < 0xdc00

/-- Second half of a pair. -/
def isLow (u : UInt16) : Bool := 0xdc00 ≤ u && u < 0xe000

/-- The character that a pair stands for. -/
def pair (u v : UInt16) : Char :=
  Char.ofNat (0x10000 + (u.toNat - 0xd800) * 0x400 + (v.toNat - 0xdc00))

/-- The characters that units stand for, with each unpaired surrogate by itself. -/
def scalars : List UInt16 → List (Char ⊕ UInt16)
  | [] => []
  | [u] => if isHigh u || isLow u then [.inr u] else [.inl (Char.ofNat u.toNat)]
  | u :: v :: us =>
    if isHigh u then
      if isLow v then .inl (pair u v) :: scalars us else .inr u :: scalars (v :: us)
    else if isLow u then .inr u :: scalars (v :: us)
    else .inl (Char.ofNat u.toNat) :: scalars (v :: us)

/-- The text that units stand for, if they pair up. -/
def ofUnits? (us : List UInt16) : Option Text := (scalars us).mapM Sum.getLeft?

end DalvikPatch.Text
