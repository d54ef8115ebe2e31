import DalvikPatch.Fault
import DalvikPatch.JsonValue
import DalvikPatch.Text.Word

/-! Options that a run is given, and what a patch expects of one: where it is found, what it is if
it is not given, and which values it may have. -/

namespace DalvikPatch

open Text

/-- The values that a run is given, one for a key. -/
structure Options where
  values : List (Text × Text)
  deriving DecidableEq

namespace Options

def empty : Options := ⟨[]⟩

def get? (o : Options) (key : Text) : Option Text := o.values.lookup key

/-- Puts a value in the place of the one before. -/
def insert (o : Options) (key value : Text) : Options :=
  ⟨(key, value) :: o.values.filter (·.1 != key)⟩

def ofList (values : List (Text × Text)) : Options :=
  values.foldl (fun o v => o.insert v.1 v.2) empty

/-- Reads an object of texts; of two values for a key the later one holds. -/
def ofJson? (document : Text) : Option Options := do
  let fields ← (← JsonValue.parse? document).fields?
  let values ← fields.mapM fun f => f.2.text?.map fun v => (f.1, v)
  some (ofList values)

def ofJson (document : Text) : Outcome Options :=
  match ofJson? document with
  | some o => .ok o
  | none => .fault .json

end Options

/-! ### Package names -/

/-- A small Latin letter and word characters after it. -/
def isPackagePart : Text → Bool
  | [] => false
  | c :: cs => 'a' ≤ c && c ≤ 'z' && cs.all isWord

/-- Two parts or more, separated by dots. -/
def isPackageName (s : Text) : Bool :=
  2 ≤ (pieces '.' s).length && (pieces '.' s).all isPackagePart

/-! ### Settings -/

/-- What a patch expects of an option. -/
structure Setting where
  key : Text
  title : Text
  description : Text
  default? : Option Text
  /-- Suggestions, each with its label. -/
  presets : List (Text × Text)
  required : Bool
  valid? : Option (Text → Bool)

namespace Setting

/-- The value given, or the default; a value that is not valid is a fault wherever it comes
from. -/
def resolve (s : Setting) (o : Options) : Outcome (Option Text) :=
  match (o.get? s.key).or s.default? with
  | none => if s.required then .fault (.missingOption s.key) else .ok none
  | some v => if s.valid?.all (· v) then .ok (some v) else .fault (.invalidOption s.key v)

/-- The value, which has to be there. -/
def require (s : Setting) (o : Options) : Outcome Text := do
  match ← s.resolve o with
  | some v => .ok v
  | none => .fault (.missingOption s.key)

end Setting

end DalvikPatch
