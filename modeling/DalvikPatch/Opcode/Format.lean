import DalvikPatch.Text.Basic

/-! Instruction formats: a digit for the size in code units, one for the registers, and letters for
what else is encoded. A format fixes the operands of an instruction, how large a register number
may be, and which literals fit. -/

namespace DalvikPatch

/-- What stands at one place of an instruction. -/
inductive OperandKind where
  | register
  | registerList
  | registerRange
  | literal
  | label
  | reference
  deriving DecidableEq

namespace OperandKind

def name : OperandKind → Text
  | register => "Register"
  | registerList => "RegisterList"
  | registerRange => "RegisterRange"
  | literal => "Literal"
  | label => "Label"
  | reference => "Reference"

end OperandKind

inductive Format where
  | f10t | f10x | f11n | f11x | f12x
  | f20t | f21c | f21ih | f21lh | f21s | f21t
  | f22b | f22c | f22s | f22t | f22x | f23x
  | f30t | f31c | f31i | f31t | f32x | f35c | f3rc
  | f45cc | f4rcc | f51l
  deriving DecidableEq

namespace Format

def name : Format → Text
  | f10t => "10t" | f10x => "10x" | f11n => "11n" | f11x => "11x" | f12x => "12x"
  | f20t => "20t" | f21c => "21c" | f21ih => "21ih" | f21lh => "21lh" | f21s => "21s"
  | f21t => "21t" | f22b => "22b" | f22c => "22c" | f22s => "22s" | f22t => "22t"
  | f22x => "22x" | f23x => "23x" | f30t => "30t" | f31c => "31c" | f31i => "31i"
  | f31t => "31t" | f32x => "32x" | f35c => "35c" | f3rc => "3rc" | f45cc => "45cc"
  | f4rcc => "4rcc" | f51l => "51l"

/-- Bytes of an encoded instruction. -/
def size : Format → Nat
  | f10t | f10x | f11n | f11x | f12x => 2
  | f20t | f21c | f21ih | f21lh | f21s | f21t | f22b | f22c | f22s | f22t | f22x | f23x => 4
  | f30t | f31c | f31i | f31t | f32x | f35c | f3rc => 6
  | f45cc | f4rcc => 8
  | f51l => 10

/-- The operands in the order in which they are written. -/
def operands : Format → List OperandKind
  | f10x => []
  | f10t | f20t | f30t => [.label]
  | f11x => [.register]
  | f11n | f21ih | f21lh | f21s | f31i | f51l => [.register, .literal]
  | f12x | f22x | f32x => [.register, .register]
  | f21c | f31c => [.register, .reference]
  | f21t | f31t => [.register, .label]
  | f22b | f22s => [.register, .register, .literal]
  | f22c => [.register, .register, .reference]
  | f22t => [.register, .register, .label]
  | f23x => [.register, .register, .register]
  | f35c => [.registerList, .reference]
  | f3rc => [.registerRange, .reference]
  | f45cc => [.registerList, .reference, .reference]
  | f4rcc => [.registerRange, .reference, .reference]

/-- The largest register number that an operand may have. -/
def maxRegister : Format → Nat
  | f11n | f12x | f22c | f22s | f22t | f35c | f45cc => 15
  | f32x | f3rc | f4rcc => 65535
  | _ => 255

/-- Whether a literal can be encoded. The formats 21ih and 21lh keep the top sixteen bits only. -/
def fitsLiteral (f : Format) (n : Int64) : Bool :=
  let v := n.toInt
  match f with
  | f11n => -8 ≤ v && v ≤ 7
  | f22b => -128 ≤ v && v ≤ 127
  | f21s | f22s => -32768 ≤ v && v ≤ 32767
  | f21ih => -2147483648 ≤ v && v ≤ 2147483647 && v % 65536 == 0
  | f21lh => v % 281474976710656 == 0
  | f31i => -2147483648 ≤ v && v ≤ 4294967295
  | f51l => true
  | _ => false

end Format

end DalvikPatch
