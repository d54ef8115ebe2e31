import DalvikPatch.Fault
import DalvikPatch.JsonValue
import DalvikPatch.Pattern.Engine

/-! Substitutions over a document, each of a literal or of a pattern that an engine finds. In a list of them
each sees what those before it have left. -/

namespace DalvikPatch

open Text

inductive Substitution (E : Engine) where
  | literal (old new : Text)
  | pattern (p : E.Compiled) (new : Text)

namespace Substitution

variable {E : Engine}

def apply (s : Text) : Substitution E → Text
  | literal old new => Text.replaceAll old new s
  | pattern p new => E.replaceAll p new s

def applyAll (s : Text) (subs : List (Substitution E)) : Text := subs.foldl apply s

/-- The text after each of the substitutions. -/
def steps (s : Text) : List (Substitution E) → List Text
  | [] => []
  | sub :: subs => apply s sub :: steps (apply s sub) subs

/-- What is written down for a substitution. -/
structure Spec where
  old : Text
  new : Text
  isPattern : Bool

namespace Spec

def build (E : Engine) (s : Spec) : Outcome (Substitution E) :=
  if s.isPattern then
    match E.read? s.old with
    | some p => .ok (.pattern p s.new)
    | none => .fault .pattern
  else .ok (.literal s.old s.new)

def ofJson? (v : JsonValue) : Option Spec := do
  match ← v.record? ["from", "to", "regex"] with
  | [some old, some new, isPattern] =>
    some ⟨← old.text?, ← new.text?, ← isPattern.elim (some false) JsonValue.bool?⟩
  | _ => none

/-- The specs of a document that lists them. -/
def listOfJson? (document : Text) : Option (List Spec) := do
  match ← JsonValue.parse? document with
  | .array vs => vs.mapM ofJson?
  | _ => none

end Spec

/-- All specs are built, or the first that cannot be is the fault. -/
def ofSpecs (E : Engine) (specs : List Spec) : Outcome (List (Substitution E)) := specs.mapM (Spec.build E)

/-- Reads the list of substitutions that a JSON document holds. -/
def ofJson (E : Engine) (document : Text) : Outcome (List (Substitution E)) :=
  match Spec.listOfJson? document with
  | some specs => ofSpecs E specs
  | none => .fault .json

end Substitution

end DalvikPatch
