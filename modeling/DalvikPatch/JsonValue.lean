import DalvikPatch.Numeral
import DalvikPatch.Text.Units

/-! JSON documents. A document is cut into tokens, and a stack of what is still open builds the
value from them. Strings are kept as code units, because an escape may be half of a pair; where a
text is asked for, `text?` refuses such a string. The digits of a number are of no use here. -/

namespace DalvikPatch

open Text

inductive JsonValue where
  | null
  | bool (b : Bool)
  | number
  | string (us : List UInt16)
  | array (vs : List JsonValue)
  | object (fields : List (List UInt16 × JsonValue))
  deriving Inhabited

namespace JsonValue

/-! ### Tokens -/

inductive Token where
  | openArray
  | closeArray
  | openObject
  | closeObject
  | colon
  | comma
  | null
  | bool (b : Bool)
  | number
  | string (us : List UInt16)

def isBlank (c : Char) : Bool := c == ' ' || c == '\t' || c == '\n' || c == '\r'

/-- The unit of a one-letter escape. -/
def namedUnit? (c : Char) : Option UInt16 :=
  if c = '"' ∨ c = '\\' ∨ c = '/' then some c.toNat.toUInt16
  else if c = 'b' then some 8
  else if c = 'f' then some 12
  else if c = 'n' then some 10
  else if c = 'r' then some 13
  else if c = 't' then some 9
  else none

/-- Reads a string from inside of it, and gives the text after its closing quote. -/
def readString? : Text → Option (List UInt16 × Text)
  | [] => none
  | '"' :: s => some ([], s)
  | '\\' :: 'u' :: a :: b :: c :: d :: s =>
    if [a, b, c, d].all (Numeral.isDigitOf 16) then
      (readString? s).map fun p => ((Numeral.value 16 [a, b, c, d]).toUInt16 :: p.1, p.2)
    else none
  | '\\' :: c :: s =>
    match namedUnit? c with
    | some u => (readString? s).map fun p => (u :: p.1, p.2)
    | none => none
  | c :: s =>
    if c.toNat < 0x20 ∨ c = '\\' then none
    else (readString? s).map fun p => (charUnits c ++ p.1, p.2)

/-- Takes digits, at least one. -/
def skipDigits? (s : Text) : Option Text :=
  if s.head?.any Char.isDigit then some (s.dropWhile Char.isDigit) else none

/-- Takes the whole part of a number, which has no zero in front. -/
def skipWhole? : Text → Option Text
  | '0' :: s => if s.head?.any Char.isDigit then none else some s
  | s => skipDigits? s

def skipFraction? : Text → Option Text
  | '.' :: s => skipDigits? s
  | s => some s

def skipSign : Text → Text
  | '+' :: s => s
  | '-' :: s => s
  | s => s

def skipExponent? : Text → Option Text
  | 'e' :: s => skipDigits? (skipSign s)
  | 'E' :: s => skipDigits? (skipSign s)
  | s => some s

/-- Takes a number. -/
def skipNumber? (s : Text) : Option Text := do
  let s := match s with
    | '-' :: s => s
    | s => s
  skipExponent? (← skipFraction? (← skipWhole? s))

/-- Reads the token that a text starts with. -/
def readToken? (s : Text) : Option (Token × Text) :=
  match s with
  | [] => none
  | '[' :: s => some (.openArray, s)
  | ']' :: s => some (.closeArray, s)
  | '{' :: s => some (.openObject, s)
  | '}' :: s => some (.closeObject, s)
  | ':' :: s => some (.colon, s)
  | ',' :: s => some (.comma, s)
  | '"' :: s => (readString? s).map fun p => (.string p.1, p.2)
  | 'n' :: s => (after? "ull" s).map fun r => (.null, r)
  | 't' :: s => (after? "rue" s).map fun r => (.bool true, r)
  | 'f' :: s => (after? "alse" s).map fun r => (.bool false, r)
  | s => (skipNumber? s).map fun r => (.number, r)

/-- Cuts a document into tokens. -/
def tokens? (s : Text) : Option (List Token) :=
  match s.dropWhile isBlank with
  | [] => some []
  | c :: t =>
    match readToken? (c :: t) with
    | none => none
    | some (k, rest) =>
      if _ : rest.length < s.length then (tokens? rest).map (k :: ·) else none
termination_by s.length

/-! ### Values -/

/-- What is open around the place that is read: an array with the values before, or an object with
the fields before and the key of the value to come. -/
inductive Frame where
  | array (before : List JsonValue)
  | object (before : List (List UInt16 × JsonValue)) (key : List UInt16)

/-- What may come next: a value, perhaps the end of an empty array instead; a key, perhaps the end
of an empty object instead; the colon after a key; or what follows a value. -/
inductive Expectation where
  | value (orEnd : Bool)
  | key (before : List (List UInt16 × JsonValue)) (orEnd : Bool)
  | colon (before : List (List UInt16 × JsonValue)) (key : List UInt16)
  | after (v : JsonValue)

/-- Takes one token; values are collected last first. -/
def step (frames : List Frame) : Expectation → Token → Option (List Frame × Expectation)
  | .value _, .null => some (frames, .after .null)
  | .value _, .bool b => some (frames, .after (.bool b))
  | .value _, .number => some (frames, .after .number)
  | .value _, .string us => some (frames, .after (.string us))
  | .value _, .openArray => some (.array [] :: frames, .value true)
  | .value _, .openObject => some (frames, .key [] true)
  | .value true, .closeArray => some (frames.drop 1, .after (.array []))
  | .key before _, .string us => some (frames, .colon before us)
  | .key _ true, .closeObject => some (frames, .after (.object []))
  | .colon before key, .colon => some (.object before key :: frames, .value false)
  | .after v, .comma =>
    match frames with
    | .array before :: rest => some (.array (v :: before) :: rest, .value false)
    | .object before key :: rest => some (rest, .key ((key, v) :: before) false)
    | [] => none
  | .after v, .closeArray =>
    match frames with
    | .array before :: rest => some (rest, .after (.array (v :: before).reverse))
    | _ => none
  | .after v, .closeObject =>
    match frames with
    | .object before key :: rest => some (rest, .after (.object ((key, v) :: before).reverse))
    | _ => none
  | _, _ => none

/-- The value that tokens stand for, from a place inside of it. -/
def build? : List Frame → Expectation → List Token → Option JsonValue
  | [], .after v, [] => some v
  | _, _, [] => none
  | frames, e, t :: ts =>
    match step frames e t with
    | some (frames, e) => build? frames e ts
    | none => none

/-- Reads a document. -/
def parse? (s : Text) : Option JsonValue := (tokens? s).bind (build? [] (.value false))

/-! ### Looking into a value -/

/-- The text that a string stands for. -/
def text? : JsonValue → Option Text
  | string us => ofUnits? us
  | _ => none

def bool? : JsonValue → Option Bool
  | bool b => some b
  | _ => none

def ofText (s : Text) : JsonValue := string (units s)

/-- The fields of an object, if every key stands for text. -/
def fields? : JsonValue → Option (List (Text × JsonValue))
  | object fields => fields.mapM fun f => (ofUnits? f.1).map fun k => (k, f.2)
  | _ => none

/-- The values of the named fields of an object, or of an array that gives them in order, as far
as it goes; none if a name is there twice. Other fields are passed over. -/
def record? (names : List Text) (v : JsonValue) : Option (List (Option JsonValue)) :=
  match v with
  | array vs =>
    if vs.length ≤ names.length then some (names.mapIdx fun i _ => vs[i]?) else none
  | v => do
    let fields ← fields? v
    names.mapM fun n =>
      match fields.filter (·.1 == n) with
      | [] => some none
      | [f] => some (some f.2)
      | _ => none

end JsonValue

end DalvikPatch
