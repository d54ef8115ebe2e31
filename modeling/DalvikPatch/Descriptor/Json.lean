import DalvikPatch.Descriptor.Basic
import DalvikPatch.Fault
import DalvikPatch.JsonValue

/-! Types and prototypes as JSON: a primitive type is its name, an array or an object type a field
of that name. A name may also be the key of a field that is null. Class names are not checked. -/

namespace DalvikPatch

open Text

namespace TypeDescriptor

/-- The type that a name alone stands for. -/
def ofName? (name : Text) : Option TypeDescriptor :=
  if name = "Int" then some int
  else if name = "Bool" then some bool
  else if name = "Byte" then some byte
  else if name = "Char" then some char
  else if name = "Short" then some short
  else if name = "Long" then some long
  else if name = "Float" then some float
  else if name = "Double" then some double
  else if name = "Void" then some void
  else none

def name : TypeDescriptor → Text
  | array _ => "Array"
  | object _ => "Object"
  | int => "Int"
  | bool => "Bool"
  | byte => "Byte"
  | char => "Char"
  | short => "Short"
  | long => "Long"
  | float => "Float"
  | double => "Double"
  | void => "Void"

def toJson : TypeDescriptor → JsonValue
  | array t => .object [(units "Array", t.toJson)]
  | object n => .object [(units "Object", .object [(units "class_name", .ofText n.path)])]
  | t => .ofText t.name

end TypeDescriptor

def ClassName.ofJson? (v : JsonValue) : Option ClassName := do
  match ← v.record? ["class_name"] with
  | [some path] => (path.text?).map ClassName.mk
  | _ => none

def TypeDescriptor.ofJson? : JsonValue → Option TypeDescriptor
  | .string us => (ofUnits? us).bind ofName?
  | .object [(key, v)] =>
    match ofUnits? key with
    | none => none
    | some k =>
      if k = "Array" then (ofJson? v).map array
      else if k = "Object" then (ClassName.ofJson? v).map object
      else match v with
        | .null => ofName? k
        | _ => none
  | _ => none

namespace Prototype

def toJson (p : Prototype) : JsonValue :=
  .object [(units "args", .array (p.parameters.map TypeDescriptor.toJson)),
    (units "result", p.result.toJson)]

def ofJson? (v : JsonValue) : Option Prototype := do
  match ← v.record? ["args", "result"] with
  | [some (.array ps), some r] => some ⟨← ps.mapM TypeDescriptor.ofJson?, ← TypeDescriptor.ofJson? r⟩
  | _ => none

def ofJson (v : JsonValue) : Outcome Prototype :=
  match ofJson? v with
  | some p => .ok p
  | none => .fault .json

end Prototype

end DalvikPatch
