import DalvikPatch.Numeral
import DalvikPatch.Text.Blank

/-! Type descriptors and method prototypes: how they are written in class files and in source, and
how many registers they take. The reader accepts exactly what `jni` writes, for class names
without the characters that end one. -/

namespace DalvikPatch

open Text

/-- The name of a class, its packages separated by slashes. -/
structure ClassName where
  path : Text
  deriving DecidableEq

namespace ClassName

/-- The descriptor of the class. -/
def jni (n : ClassName) : Text := "L" ++ n.path ++ ";"

/-- The name with dots between the packages. -/
def java (n : ClassName) : Text := n.path.map fun c => if c = '/' then '.' else c

def ofJava (s : Text) : ClassName := ⟨s.map fun c => if c = '.' then '/' else c⟩

/-- The name without its packages. -/
def simple (n : ClassName) : Text :=
  match cutLast? ['/'] n.path with
  | some p => p.2
  | none => n.path

end ClassName

inductive TypeDescriptor where
  | array (element : TypeDescriptor)
  | object (name : ClassName)
  | int | bool | byte | char | short | long | float | double | void
  deriving DecidableEq

namespace TypeDescriptor

def jni : TypeDescriptor → Text
  | array t => '[' :: t.jni
  | object n => n.jni
  | bool => ['Z']
  | byte => ['B']
  | char => ['C']
  | short => ['S']
  | int => ['I']
  | long => ['J']
  | float => ['F']
  | double => ['D']
  | void => ['V']

def java : TypeDescriptor → Text
  | array t => t.java ++ "[]"
  | object n => n.java
  | bool => "boolean"
  | byte => "byte"
  | char => "char"
  | short => "short"
  | int => "int"
  | long => "long"
  | float => "float"
  | double => "double"
  | void => "void"

/-- Longs and doubles take a pair of registers. -/
def isWide (t : TypeDescriptor) : Bool := t == long || t == double

/-- Objects and arrays. -/
def isReference : TypeDescriptor → Bool
  | array _ | object _ => true
  | _ => false

def isPrimitive (t : TypeDescriptor) : Bool := !t.isReference && t != void

/-- Registers that hold a value of the type. -/
def width (t : TypeDescriptor) : Nat := if t = void then 0 else if t.isWide then 2 else 1

/-! ### Reading -/

/-- Characters that may stand in the name of a class. -/
def isNameChar (c : Char) : Bool := c != ';' && c != ')' && c != ',' && !isBlank c

/-- The type that one letter stands for. -/
def ofLetter? (c : Char) : Option TypeDescriptor :=
  if c = 'Z' then some bool
  else if c = 'B' then some byte
  else if c = 'C' then some char
  else if c = 'S' then some short
  else if c = 'I' then some int
  else if c = 'J' then some long
  else if c = 'F' then some float
  else if c = 'D' then some double
  else if c = 'V' then some void
  else none

/-- Reads a descriptor and gives the text after it. -/
def read? : Text → Option (TypeDescriptor × Text)
  | [] => none
  | c :: s =>
    if c = 'L' then
      if (s.takeWhile isNameChar).isEmpty then none
      else (after? [';'] (s.dropWhile isNameChar)).map fun r =>
        (object ⟨s.takeWhile isNameChar⟩, r)
    else if c = '[' then (read? s).map fun p => (array p.1, p.2)
    else (ofLetter? c).map fun t => (t, s)

theorem length_lt_of_read? {s : Text} {p : TypeDescriptor × Text} (h : read? s = some p) :
    p.2.length < s.length := by
  fun_induction read? s generalizing p with
  | case1 => simp at h
  | case2 => simp at h
  | case3 s _ =>
    obtain ⟨r, hr, rfl⟩ := Option.map_eq_some_iff.1 h
    have := congrArg List.length (eq_append_of_after? hr)
    have := (List.dropWhile_sublist (l := s) isNameChar).length_le
    simp at *; omega
  | case4 s _ ih =>
    obtain ⟨q, hq, rfl⟩ := Option.map_eq_some_iff.1 h
    have := ih hq
    simp; omega
  | case5 c s =>
    obtain ⟨t, _, rfl⟩ := Option.map_eq_some_iff.1 h
    simp

/-- Reads as many descriptors as there are. -/
def readAll (s : Text) : List TypeDescriptor × Text :=
  match _ : read? s with
  | some p => (p.1 :: (readAll p.2).1, (readAll p.2).2)
  | none => ([], s)
termination_by s.length
decreasing_by all_goals exact length_lt_of_read? ‹_›

/-- The descriptor that a whole text is. -/
def ofJni? (s : Text) : Option TypeDescriptor :=
  match read? s with
  | some (t, []) => some t
  | _ => none

end TypeDescriptor

/-- What a method takes and gives. -/
structure Prototype where
  parameters : List TypeDescriptor
  result : TypeDescriptor
  deriving DecidableEq

namespace Prototype

def jni (p : Prototype) : Text := "(" ++ p.parameters.flatMap TypeDescriptor.jni ++ ")" ++ p.result.jni

/-- Registers that hold the declared parameters. -/
def parameterRegisters (p : Prototype) : Nat :=
  p.parameters.foldr (fun t n => t.width + n) 0

/-- Reads a prototype and gives the text after it. -/
def read? (s : Text) : Option (Prototype × Text) := do
  let s ← after? ['('] s
  let parameters := TypeDescriptor.readAll s
  let s ← after? [')'] parameters.2
  let result ← TypeDescriptor.read? s
  some (⟨parameters.1, result.1⟩, result.2)

/-- The prototype that a whole text is. -/
def ofJni? (s : Text) : Option Prototype :=
  match read? s with
  | some (p, []) => some p
  | _ => none

end Prototype

end DalvikPatch
