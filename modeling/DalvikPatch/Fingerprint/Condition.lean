import DalvikPatch.Fingerprint.Basic

/-! Conditions that can be written down: tests that all have to hold, and failures on purpose. -/

namespace DalvikPatch

open Text

inductive MethodTest where
  | named (name : Text)
  /-- On the name of the class with its package, separated by dots. -/
  | classEndsWith (suffix : Text)
  /-- On the descriptor of the class above. -/
  | childOf (descriptor : Text)
  | loads (string : Text)
  | static (b : Bool)
  | atLeast (instructions : Nat)
  deriving DecidableEq

def MethodTest.holds (m : Method) (c : Class) : MethodTest → Bool
  | named n => m.name == n
  | classEndsWith s => endsWith s c.name.java
  | childOf d => c.super?.any fun n => n.jni == d
  | loads s => m.strings.any fun p => p.2 == s
  | static b => m.isStatic == b
  | atLeast n => n ≤ m.instructionCount

namespace Condition

/-- Holds where all tests hold. -/
def all (tests : List MethodTest) : Condition := fun m c => .ok (tests.all (·.holds m c))

/-- Fails everywhere. -/
def failing (reason : Text) : Condition := fun _ _ => .error reason

/-- Fails on methods of one name. -/
def failingOn (name : Text) (p : Condition) : Condition := fun m c =>
  if m.name = name then .error ("failed on " ++ name) else p m c

end Condition

end DalvikPatch
