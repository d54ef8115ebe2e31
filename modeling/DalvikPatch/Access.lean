import DalvikPatch.Text.Basic

/-! Access flags and the modifier keywords that write them. One bit may have two meanings, so a
keyword belongs to what it may be written in front of. -/

namespace DalvikPatch

/-- What flags are attached to. -/
inductive Carrier where
  | type
  | field
  | method
  deriving DecidableEq

structure AccessFlags where
  bits : BitVec 18
  deriving DecidableEq

/-- A modifier: its word, its bit, and what it may be written in front of if not of all. -/
structure Modifier where
  word : Text
  flag : AccessFlags
  carrier? : Option Carrier

namespace AccessFlags

def empty : AccessFlags := ⟨0⟩
def isPublic : AccessFlags := ⟨0x1⟩
def isStatic : AccessFlags := ⟨0x8⟩
def isNative : AccessFlags := ⟨0x100⟩
def isAbstract : AccessFlags := ⟨0x400⟩
def isConstructor : AccessFlags := ⟨0x10000⟩

def union (f g : AccessFlags) : AccessFlags := ⟨f.bits ||| g.bits⟩

/-- Whether every flag of `g` is set. -/
def contains (f g : AccessFlags) : Bool := f.bits &&& g.bits == g.bits

/-- Whether some flag of `g` is set. -/
def intersects (f g : AccessFlags) : Bool := f.bits &&& g.bits != 0

/-- The modifiers in the order in which they are written. -/
def modifiers : List Modifier := [
  ⟨"public", ⟨0x1⟩, none⟩,
  ⟨"private", ⟨0x2⟩, none⟩,
  ⟨"protected", ⟨0x4⟩, none⟩,
  ⟨"static", ⟨0x8⟩, none⟩,
  ⟨"final", ⟨0x10⟩, none⟩,
  ⟨"synchronized", ⟨0x20⟩, some .method⟩,
  ⟨"volatile", ⟨0x40⟩, some .field⟩,
  ⟨"bridge", ⟨0x40⟩, some .method⟩,
  ⟨"transient", ⟨0x80⟩, some .field⟩,
  ⟨"varargs", ⟨0x80⟩, some .method⟩,
  ⟨"native", ⟨0x100⟩, some .method⟩,
  ⟨"interface", ⟨0x200⟩, some .type⟩,
  ⟨"abstract", ⟨0x400⟩, none⟩,
  ⟨"strictfp", ⟨0x800⟩, some .method⟩,
  ⟨"synthetic", ⟨0x1000⟩, none⟩,
  ⟨"annotation", ⟨0x2000⟩, some .type⟩,
  ⟨"enum", ⟨0x4000⟩, none⟩,
  ⟨"constructor", ⟨0x10000⟩, some .method⟩,
  ⟨"declared-synchronized", ⟨0x20000⟩, some .method⟩]

/-- All flags that have a keyword. -/
def known : AccessFlags := (modifiers.map Modifier.flag).foldl union empty

/-- The known flags among the bits of a number. -/
def ofNat (n : Nat) : AccessFlags := ⟨BitVec.ofNat 18 n &&& known.bits⟩

def toNat (f : AccessFlags) : Nat := f.bits.toNat

end AccessFlags

/-- Whether a modifier may be written in front of `c`. -/
def Modifier.suits (m : Modifier) (c : Carrier) : Bool := m.carrier?.all (· == c)

namespace AccessFlags

/-- The flag of a keyword; `strict` is an older word for `strictfp`. -/
def ofKeyword? (word : Text) (c : Carrier) : Option AccessFlags :=
  let word : Text := if word = "strict" then "strictfp" else word
  (modifiers.find? fun m => m.word == word && m.suits c).map Modifier.flag

/-- The modifiers that write these flags in front of `c`, in their order. -/
def keywords (f : AccessFlags) (c : Carrier) : List Text :=
  (modifiers.filter fun m => m.suits c && f.contains m.flag).map Modifier.word

end AccessFlags

end DalvikPatch
