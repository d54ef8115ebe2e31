import DalvikPatch.Instruction.Basic

/-! What can go wrong, as causes. A fault is an answer: it has one wording and may name the
fingerprint that it was raised for. An abort is not an answer of the operation but ends the run of
operations it is part of. -/

namespace DalvikPatch

open Text

/-- Where a reader found a mistake. -/
inductive Place where
  | text (s : Text)
  | line (n : Nat)
  | inFile (path : Text) (p : Place)
  deriving DecidableEq

def Place.show : Place → Text
  | text s => s
  | line n => "line " ++ Numeral.decimal n
  | inFile path p => path ++ ":" ++ p.show

/-- What a reader found wrong. -/
inductive Mistake where
  | invalidType
  | invalidPrototype
  | notObject
  | invalidMethodRef
  | escape (f : EscapeFault)
  | emptyDocument
  | expectedDirective (keyword : Text)
  | emptyDirective (keyword : Text)
  | unknownModifier (word : Text)
  | invalidClass (s : Text)
  | invalidSource
  | fieldWithoutType
  | invalidFieldType (s : Text)
  | expectedEndField
  | invalidMethod (s : Text)
  | unterminatedMethod (name : Text)
  | invalidLabel (line : Text)
  | unknownDirective (line : Text)
  | instruction (f : InstructionFault)
  | unterminatedBlock (closing : Text)
  | unexpected (line : Text)
  | noApplication
  | noPackage
  deriving DecidableEq

def Mistake.message : Mistake → Text
  | invalidType => "invalid type descriptor"
  | invalidPrototype => "invalid method descriptor"
  | notObject => "not an object type"
  | invalidMethodRef => "invalid method reference"
  | escape f => f.message
  | emptyDocument => "empty document"
  | expectedDirective k => "expected " ++ k
  | emptyDirective k => "empty " ++ k
  | unknownModifier w => "unknown modifier " ++ w
  | invalidClass s => "invalid class descriptor " ++ s
  | invalidSource => "invalid .source"
  | fieldWithoutType => "field without type"
  | invalidFieldType s => "invalid field type " ++ s
  | expectedEndField => "expected .end field"
  | invalidMethod s => "invalid method " ++ s
  | unterminatedMethod n => "method " ++ n ++ " has no .end method"
  | invalidLabel l => "invalid label " ++ l
  | unknownDirective l => "unknown directive " ++ l
  | instruction f => "invalid instruction: " ++ f.message
  | unterminatedBlock c => "unterminated block, expected " ++ c
  | unexpected l => "unexpected " ++ l
  | noApplication => "no </application> element"
  | noPackage => "no package attribute on <manifest>"

/-- Why a file cannot be read or written. -/
inductive FileFault where
  | missing
  | isFolder
  | notFolder
  | occupied
  | invalidName
  | noPath
  /-- The system has given up, in its own words. -/
  | refused (reason : Text)
  deriving DecidableEq

def FileFault.message : FileFault → Text
  | missing => "No such file or directory (os error 2)"
  | isFolder => "Is a directory (os error 21)"
  | notFolder => "Not a directory (os error 20)"
  | occupied => "File exists (os error 17)"
  | invalidName => "file name contained an unexpected NUL byte"
  | noPath => "no file_path set for class"
  | refused reason => reason

inductive Fault where
  | unresolved (fingerprint : Text)
  | ambiguous (fingerprint : Text) (candidates : List Text)
  | predicate (fingerprint : Text) (reason : Text)
  | outOfRange (method : Text) (index count : Nat)
  | noImplementation (method : Text)
  | notFound (what method : Text)
  | instruction (f : InstructionFault)
  | parse (place : Place) (mistake : Mistake)
  | missingOption (key : Text)
  | invalidOption (key value : Text)
  | unknownPackage
  | missingResources
  | file (path : Text) (f : FileFault)
  | pattern
  | json
  | patch (name : Text) (f : Fault)
  deriving DecidableEq

namespace Fault

def message : Fault → Text
  | unresolved f => "unresolved fingerprint: " ++ f
  | ambiguous f cs =>
    "fingerprint " ++ f ++ " matched " ++ Numeral.decimal cs.length ++ " methods: " ++ join ", " cs
  | predicate f r => "custom predicate of fingerprint " ++ f ++ " failed: " ++ r
  | outOfRange m i n =>
    "instruction index " ++ Numeral.decimal i ++ " out of range for " ++ m ++ " (" ++
      Numeral.decimal n ++ " instructions)"
  | noImplementation m => "method " ++ m ++ " has no implementation"
  | notFound w m => w ++ " not found in " ++ m
  | instruction f => "invalid instruction: " ++ f.message
  | parse p m => "parse error at " ++ p.show ++ ": " ++ m.message
  | missingOption k => "missing required option: " ++ k
  | invalidOption k v => "invalid value " ++ inspect v ++ " for option " ++ k
  | unknownPackage => "original package name not known yet, run the manifest patch first"
  | missingResources => "no resource tree attached to this patch context"
  | file p f => "i/o error on " ++ p ++ ": " ++ f.message
  | pattern => "invalid pattern"
  | json => "invalid JSON"
  | patch n f => "patch " ++ n ++ " failed: " ++ f.message

/-- The fingerprint whose look-up failed. -/
def fingerprint? : Fault → Option Text
  | unresolved f | ambiguous f _ | predicate f _ => some f
  | patch _ f => f.fingerprint?
  | _ => none

end Fault

/-- Why a run of operations cannot go on. -/
inductive Abort where
  | outsideFrame (i : Instruction) (r : Register) (frame : Nat) (method : Text)
  | unencodable (i : Instruction) (r : Register)
  | frameTooLarge
  | splitCharacter
  deriving DecidableEq

/-- The registers assertion that an abort reports, if it is one. -/
def Abort.assertion? : Abort → Option Text
  | outsideFrame i r n m => some (i.text ++ " uses " ++ r.text ++ " outside the " ++
      Numeral.decimal n ++ " register frame of " ++ m)
  | unencodable i r => some (i.text ++ " cannot encode " ++ r.text)
  | frameTooLarge | splitCharacter => none

/-- How an operation can end without a result. -/
inductive Stop where
  | fault (f : Fault)
  | abort (a : Abort)
  deriving DecidableEq

abbrev Outcome (α : Type) := Except Stop α

/-- Lifts the refusal of an instruction. -/
def Outcome.ofInstruction {α : Type} : Except InstructionFault α → Outcome α
  | .ok a => .ok a
  | .error f => .error (.fault (.instruction f))

def Outcome.fault {α : Type} (f : Fault) : Outcome α := .error (.fault f)

def Outcome.abort {α : Type} (a : Abort) : Outcome α := .error (.abort a)

/-- A mistake on a line. -/
def Outcome.mistake {α : Type} (n : Nat) (m : Mistake) : Outcome α :=
  .error (.fault (.parse (.line n) m))

/-! ### Steps that succeed -/

section

variable {ε α β : Type}

theorem exists_of_bind {x : Except ε α} {g : α → Except ε β} {b : β} (h : x.bind g = .ok b) :
    ∃ a, x = .ok a ∧ g a = .ok b := by
  cases x with
  | error e => cases h
  | ok a => exact ⟨a, rfl, h⟩

theorem exists_of_map {x : Except ε α} {g : α → β} {b : β} (h : x.map g = .ok b) :
    ∃ a, x = .ok a ∧ g a = b := by
  cases x with
  | error e => cases h
  | ok a => exact ⟨a, rfl, Except.ok.inj h⟩

end

end DalvikPatch
