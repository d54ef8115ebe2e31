import DalvikPatch.Opcode.Basic

/-! The table of all opcodes. Opcodes of one family differ in a suffix and follow each other in
value; families that are read and written together stand side by side. -/

namespace DalvikPatch.Opcode

/-! ### Effects by family -/

def sets : List Effect := [.continues, .setsRegister]
def setsBoth : List Effect := [.continues, .setsRegister, .setsPair]
def throwsOn : List Effect := [.throws, .continues]
def throwsSets : List Effect := [.throws, .continues, .setsRegister]
def throwsSetsBoth : List Effect := [.throws, .continues, .setsRegister, .setsPair]
def jumps : List Effect := [.branches]
def mayJump : List Effect := [.branches, .continues]
def invokes : List Effect := [.throws, .continues, .setsResult]

/-- An opcode without a reference. -/
def plain (value : Nat) (name : Text) (format : Format) (effects : List Effect) : Opcode :=
  ⟨value, name, format, none, none, effects⟩

/-- An opcode with one reference. -/
def refers (value : Nat) (name : Text) (kind : ReferenceKind) (format : Format)
    (effects : List Effect) : Opcode :=
  ⟨value, name, format, some kind, none, effects⟩

/-! ### Families -/

def basics : List Opcode := [
  plain 0x00 "nop" .f10x [.continues],
  plain 0x01 "move" .f12x sets,
  plain 0x02 "move/from16" .f22x sets,
  plain 0x03 "move/16" .f32x sets,
  plain 0x04 "move-wide" .f12x setsBoth,
  plain 0x05 "move-wide/from16" .f22x setsBoth,
  plain 0x06 "move-wide/16" .f32x setsBoth,
  plain 0x07 "move-object" .f12x sets,
  plain 0x08 "move-object/from16" .f22x sets,
  plain 0x09 "move-object/16" .f32x sets,
  plain 0x0a "move-result" .f11x sets,
  plain 0x0b "move-result-wide" .f11x setsBoth,
  plain 0x0c "move-result-object" .f11x sets,
  plain 0x0d "move-exception" .f11x sets,
  plain 0x0e "return-void" .f10x [.returns],
  plain 0x0f "return" .f11x [.returns, .throws],
  plain 0x10 "return-wide" .f11x [.returns, .throws],
  plain 0x11 "return-object" .f11x [.returns, .throws],
  plain 0x12 "const/4" .f11n sets,
  plain 0x13 "const/16" .f21s sets,
  plain 0x14 "const" .f31i sets,
  plain 0x15 "const/high16" .f21ih sets,
  plain 0x16 "const-wide/16" .f21s setsBoth,
  plain 0x17 "const-wide/32" .f31i setsBoth,
  plain 0x18 "const-wide" .f51l setsBoth,
  plain 0x19 "const-wide/high16" .f21lh setsBoth,
  refers 0x1a "const-string" .string .f21c throwsSets,
  refers 0x1b "const-string/jumbo" .string .f31c [.throws, .continues, .setsRegister, .jumbo],
  refers 0x1c "const-class" .type .f21c throwsSets,
  plain 0x1d "monitor-enter" .f11x throwsOn,
  plain 0x1e "monitor-exit" .f11x throwsOn,
  refers 0x1f "check-cast" .type .f21c throwsSets,
  refers 0x20 "instance-of" .type .f22c throwsSets,
  plain 0x21 "array-length" .f12x throwsSets,
  refers 0x22 "new-instance" .type .f21c throwsSets,
  refers 0x23 "new-array" .type .f22c throwsSets,
  refers 0x24 "filled-new-array" .type .f35c invokes,
  refers 0x25 "filled-new-array/range" .type .f3rc invokes,
  plain 0x26 "fill-array-data" .f31t throwsOn,
  plain 0x27 "throw" .f11x [.throws],
  plain 0x28 "goto" .f10t jumps,
  plain 0x29 "goto/16" .f20t jumps,
  plain 0x2a "goto/32" .f30t jumps,
  plain 0x2b "packed-switch" .f31t mayJump,
  plain 0x2c "sparse-switch" .f31t mayJump,
  plain 0x2d "cmpl-float" .f23x sets,
  plain 0x2e "cmpg-float" .f23x sets,
  plain 0x2f "cmpl-double" .f23x sets,
  plain 0x30 "cmpg-double" .f23x sets,
  plain 0x31 "cmp-long" .f23x sets]

/-- Opcodes of one kind, their values counted from the first one's. -/
def family (first : Nat) (names : List Text) (make : Nat → Text → Opcode) : List Opcode :=
  names.mapIdx fun i n => make (first + i) n

def conditions : List Opcode :=
  family 0x32 ["if-eq", "if-ne", "if-lt", "if-ge", "if-gt", "if-le"]
      (fun v n => plain v n .f22t mayJump) ++
    family 0x38 ["if-eqz", "if-nez", "if-ltz", "if-gez", "if-gtz", "if-lez"]
      (fun v n => plain v n .f21t mayJump)

/-- What follows `get` and `put` for each kind of element. -/
def elements : List Text := ["", "-wide", "-object", "-boolean", "-byte", "-char", "-short"]

/-- Reads and writes of array elements, instance fields and static fields of one kind. -/
def accessorsOf (i : Nat) (element : Text) : List Opcode :=
  let gets := if element = "-wide" then throwsSetsBoth else throwsSets
  [plain (0x44 + i) ("aget" ++ element) .f23x gets,
    plain (0x4b + i) ("aput" ++ element) .f23x throwsOn,
    refers (0x52 + i) ("iget" ++ element) .field .f22c gets,
    refers (0x59 + i) ("iput" ++ element) .field .f22c throwsOn,
    refers (0x60 + i) ("sget" ++ element) .field .f21c (gets ++ [.accessesStatic]),
    refers (0x67 + i) ("sput" ++ element) .field .f21c (throwsOn ++ [.accessesStatic])]

def accessors : List Opcode := (elements.mapIdx accessorsOf).flatten

def calls : List Text :=
  ["invoke-virtual", "invoke-super", "invoke-direct", "invoke-static", "invoke-interface"]

def invocations : List Opcode :=
  family 0x6e calls (fun v n => refers v n .method .f35c invokes) ++
    family 0x74 (calls.map (· ++ "/range")) (fun v n => refers v n .method .f3rc invokes)

/-- Operations on one value, with whether they set a pair. -/
def unary : List (Text × Bool) := [
  ("neg-int", false), ("not-int", false), ("neg-long", true), ("not-long", true),
  ("neg-float", false), ("neg-double", true), ("int-to-long", true), ("int-to-float", false),
  ("int-to-double", true), ("long-to-int", false), ("long-to-float", false),
  ("long-to-double", true), ("float-to-int", false), ("float-to-long", true),
  ("float-to-double", true), ("double-to-int", false), ("double-to-long", true),
  ("double-to-float", false), ("int-to-byte", false), ("int-to-char", false),
  ("int-to-short", false)]

def conversions : List Opcode :=
  unary.mapIdx fun i o => plain (0x7b + i) o.1 .f12x (if o.2 then setsBoth else sets)

def fractionOperations : List Text := ["add", "sub", "mul", "div", "rem"]

def bitOperations : List Text := ["and", "or", "xor", "shl", "shr", "ushr"]

/-- Operations on values of one type, with whether they set a pair and whether they divide. -/
def operationsOn (type : Text) (pair : Bool) (names : List Text) : List (Text × Bool × Bool) :=
  names.map fun o => (o ++ "-" ++ type, pair, o = "div" || o = "rem")

def binary : List (Text × Bool × Bool) :=
  operationsOn "int" false (fractionOperations ++ bitOperations) ++
    operationsOn "long" true (fractionOperations ++ bitOperations) ++
    operationsOn "float" false fractionOperations ++
    operationsOn "double" true fractionOperations

/-- An operation with three registers and the one that puts its result into the first. -/
def arithmeticOf (i : Nat) (o : Text × Bool × Bool) : List Opcode :=
  let effects := (if o.2.1 then setsBoth else sets) ++ (if o.2.2 then [.throws] else [])
  [plain (0x90 + i) o.1 .f23x effects, plain (0xb0 + i) (o.1 ++ "/2addr") .f12x effects]

def arithmetic : List Opcode := (binary.mapIdx arithmeticOf).flatten

def literalArithmetic : List Opcode :=
  family 0xd0 ["add-int/lit16", "rsub-int", "mul-int/lit16", "div-int/lit16", "rem-int/lit16",
      "and-int/lit16", "or-int/lit16", "xor-int/lit16"] (fun v n => plain v n .f22s sets) ++
    family 0xd8 ["add-int/lit8", "rsub-int/lit8", "mul-int/lit8", "div-int/lit8", "rem-int/lit8",
      "and-int/lit8", "or-int/lit8", "xor-int/lit8", "shl-int/lit8", "shr-int/lit8",
      "ushr-int/lit8"] (fun v n => plain v n .f22b sets)

def dynamics : List Opcode := [
  ⟨0xfa, "invoke-polymorphic", .f45cc, some .method, some .prototype, invokes⟩,
  ⟨0xfb, "invoke-polymorphic/range", .f4rcc, some .method, some .prototype, invokes⟩,
  refers 0xfc "invoke-custom" .callSite .f35c invokes,
  refers 0xfd "invoke-custom/range" .callSite .f3rc invokes,
  refers 0xfe "const-method-handle" .methodHandle .f21c throwsSets,
  refers 0xff "const-method-type" .prototype .f21c throwsSets]

/-! ### The table -/

def table : List Opcode :=
  basics ++ conditions ++ accessors ++ invocations ++ conversions ++ arithmetic ++
    literalArithmetic ++ dynamics

def ofName? (name : Text) : Option Opcode := table.find? (·.name == name)

def ofValue? (value : Nat) : Option Opcode := table.find? (·.value == value)

theorem mem_table_of_ofName? {name : Text} {o : Opcode} (h : ofName? name = some o) :
    o ∈ table ∧ o.name = name :=
  ⟨List.mem_of_find?_eq_some h, by simpa using List.find?_some h⟩

end DalvikPatch.Opcode
