import DalvikPatch.Opcode.Format

/-! Opcodes: a mnemonic with its encoded value, its format, what it may refer to, and what running
it does. -/

namespace DalvikPatch

/-- What a reference operand names. -/
inductive ReferenceKind where
  | string
  | type
  | field
  | method
  | callSite
  | prototype
  | methodHandle
  deriving DecidableEq

namespace ReferenceKind

def name : ReferenceKind → Text
  | string => "String"
  | type => "Type"
  | field => "Field"
  | method => "Method"
  | callSite => "CallSite"
  | prototype => "MethodProto"
  | methodHandle => "MethodHandle"

end ReferenceKind

/-- What running an instruction does. -/
inductive Effect where
  | throws
  | continues
  | setsResult
  | setsRegister
  | setsPair
  | accessesStatic
  | jumbo
  | returns
  | branches
  deriving DecidableEq

namespace Effect

/-- The bit of an effect in a set of them. -/
def bit : Effect → Nat
  | throws => 0x1
  | continues => 0x4
  | setsResult => 0x8
  | setsRegister => 0x10
  | setsPair => 0x20
  | accessesStatic => 0x100
  | jumbo => 0x200
  | returns => 0x800
  | branches => 0x1000

end Effect

structure Opcode where
  value : Nat
  name : Text
  format : Format
  reference? : Option ReferenceKind
  secondReference? : Option ReferenceKind
  effects : List Effect
  deriving DecidableEq

namespace Opcode

/-- The effects as a set of bits. -/
def effectBits (o : Opcode) : Nat := o.effects.foldr (fun e n => e.bit + n) 0

/-- Whether the first register and the one after it are set. -/
def setsPair (o : Opcode) : Bool := o.effects.contains .setsPair

def isReturn (o : Opcode) : Bool := o.effects.contains .returns

def loadsString (o : Opcode) : Bool := o.reference? == some .string

def isInvoke (o : Opcode) : Bool := Text.startsWith "invoke-" o.name

/-- What the reference operand after `earlier` others may name. -/
def referenceAt (o : Opcode) (earlier : Nat) : Option ReferenceKind :=
  if earlier = 0 then o.reference? else o.secondReference?

end Opcode

end DalvikPatch
