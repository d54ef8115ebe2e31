import DalvikPatch.Fault
import DalvikPatch.Pool

/-! Fingerprints find a method by what it looks like: flags it has, types it takes and gives, texts
it loads, and a condition of their own. A fingerprint resolves if exactly one method of the pool
matches it. -/

namespace DalvikPatch

open Text

/-- What a parameter may be. -/
inductive TypePattern where
  | anyObject
  | anyArray
  | exactly (descriptor : Text)
  deriving DecidableEq

namespace TypePattern

/-- An `L` or a `[` by itself stands for all objects and all arrays. -/
def ofText (s : Text) : TypePattern :=
  if s = ['L'] then anyObject else if s = ['['] then anyArray else exactly s

def accepts : TypePattern → TypeDescriptor → Bool
  | anyObject, .object _ => true
  | anyArray, .array _ => true
  | exactly d, t => t.jni == d
  | _, _ => false

end TypePattern

/-- A condition of a fingerprint on a method and its class; it may fail for a reason. -/
abbrev Condition := Method → Class → Except Text Bool

structure Fingerprint where
  /-- Results are remembered under this number, whatever the name. -/
  identity : Nat
  name : Text
  /-- Flags that the method has, perhaps among others. -/
  flags? : Option AccessFlags
  /-- The descriptor of the result. -/
  result? : Option Text
  parameters? : Option (List TypePattern)
  /-- Texts that the body loads, in any order. -/
  strings : List Text
  condition? : Option Condition

/-- A text that a body loads and the index of the instruction that loads it first. -/
structure StringMatch where
  string : Text
  index : Nat
  deriving DecidableEq

/-- The method that a fingerprint was resolved to. The indices hold until the body changes its
length. -/
structure Match where
  fingerprint : Text
  id : MethodId
  strings : List StringMatch
  deriving DecidableEq

def Match.stringIndex? (m : Match) (s : Text) : Option Nat :=
  (m.strings.find? fun q => q.string == s).map StringMatch.index

inductive Resolution where
  | found (m : Match)
  | notFound
  | ambiguous (candidates : List MethodId)
  deriving DecidableEq

namespace Resolution

def ofMatches : List Match → Resolution
  | [] => notFound
  | [m] => found m
  | ms => ambiguous (ms.map Match.id)

/-- The one method found; anything else is a fault of the fingerprint. -/
def unique (fingerprint : Text) (p : Pool) : Resolution → Outcome Match
  | found m => .ok m
  | notFound => .fault (.unresolved fingerprint)
  | ambiguous ids => .fault (.ambiguous fingerprint (ids.map p.describe))

end Resolution

namespace Fingerprint

/-! ### One method -/

def acceptsParameters (patterns : List TypePattern) (types : List TypeDescriptor) : Bool :=
  patterns.length == types.length && (patterns.zip types).all fun p => p.1.accepts p.2

/-- Where a body loads a text first. -/
def locate? (m : Method) (s : Text) : Option StringMatch :=
  (m.strings.find? fun p => p.2 == s).map fun p => ⟨s, p.1⟩

/-- Whether flags and types are as wanted. -/
def fits (f : Fingerprint) (m : Method) : Bool :=
  f.flags?.all m.flags.contains && f.parameters?.all (acceptsParameters · m.prototype.parameters) &&
    f.result?.all (m.prototype.result.jni == ·)

/-- The places of the texts, if all but the condition holds. -/
def eligible? (f : Fingerprint) (m : Method) : Option (List StringMatch) :=
  if f.fits m then f.strings.mapM (locate? m) else none

/-- The condition; a fingerprint without one has none to fail. -/
def holds (f : Fingerprint) (m : Method) (c : Class) : Except Text Bool :=
  match f.condition? with
  | some p => p m c
  | none => .ok true

/-- The places of the texts in a method that matches. The condition is asked last. -/
def match? (f : Fingerprint) (m : Method) (c : Class) : Outcome (Option (List StringMatch)) :=
  match f.eligible? m with
  | none => .ok none
  | some places =>
    match f.holds m c with
    | .ok true => .ok (some places)
    | .ok false => .ok none
    | .error reason => .fault (.predicate f.name reason)

/-- Whether the condition is asked about a method. -/
def asks (f : Fingerprint) (m : Method) : Bool := f.condition?.isSome && (f.eligible? m).isSome

/-! ### All methods -/

/-- The matches among some methods. -/
def matchesIn (f : Fingerprint) (entries : List Pool.Entry) : Outcome (List Match) := do
  let ms ← entries.mapM fun e => do
    return (← f.match? e.method e.owner).map fun places => (⟨f.name, e.id, places⟩ : Match)
  return ms.filterMap id

/-- The methods that the condition is asked about: up to the first on which it fails. -/
def asked (f : Fingerprint) : List Pool.Entry → List MethodId
  | [] => []
  | e :: es =>
    if f.asks e.method then
      e.id :: (if (f.holds e.method e.owner).toOption.isSome then f.asked es else [])
    else f.asked es

/-- Looks at every method of a pool. -/
def scan (f : Fingerprint) (p : Pool) : Outcome Resolution :=
  (f.matchesIn p.entries).map Resolution.ofMatches

/-- The one method of a pool that matches. -/
def resolve (f : Fingerprint) (p : Pool) : Outcome Match := do
  (← f.scan p).unique f.name p

end Fingerprint

end DalvikPatch
