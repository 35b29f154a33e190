import ChipEight.Instruction

namespace ChipEight

/-- The last nibble of an 8XY_ word. -/
def Alu.code : Alu → Nat
  | .copy => 0x0
  | .or => 0x1
  | .and => 0x2
  | .xor => 0x3
  | .add => 0x4
  | .sub => 0x5
  | .shiftRight => 0x6
  | .subFrom => 0x7
  | .shiftLeft => 0xE

def Alu.ofCode? : Nat → Option Alu
  | 0x0 => some .copy
  | 0x1 => some .or
  | 0x2 => some .and
  | 0x3 => some .xor
  | 0x4 => some .add
  | 0x5 => some .sub
  | 0x6 => some .shiftRight
  | 0x7 => some .subFrom
  | 0xE => some .shiftLeft
  | _ => none

theorem Alu.ofCode?_code (op : Alu) : ofCode? op.code = some op := by
  cases op <;> rfl

theorem Alu.code_lt (op : Alu) : op.code < 16 := by
  cases op <;> decide

namespace Instruction

/-- The instruction that a word stands for: the leading nibble selects the family, and the
families 5, 8, 9, E and F have gaps. -/
def decode (word : UInt16) : Option Instruction :=
  let w := word.toNat
  let x : Register := nibble (w / 256)
  let y : Register := nibble (w / 16)
  let byte : UInt8 := w.toUInt8
  let target : Address := Fin.ofNat 4096 w
  match w / 4096 with
  | 0x0 =>
    if w = 0x0E0 then some .clearScreen
    else if w = 0x0EE then some .ret
    else some (.machineCode target)
  | 0x1 => some (.jump target)
  | 0x2 => some (.call target)
  | 0x3 => some (.skipIf (.equalsByte x byte))
  | 0x4 => some (.skipIf (.differsFromByte x byte))
  | 0x5 => if w % 16 = 0 then some (.skipIf (.equal x y)) else none
  | 0x6 => some (.load x byte)
  | 0x7 => some (.increment x byte)
  | 0x8 => (Alu.ofCode? (w % 16)).map (.combine · x y)
  | 0x9 => if w % 16 = 0 then some (.skipIf (.differ x y)) else none
  | 0xA => some (.setIndex target)
  | 0xB => some (.jumpFrom target)
  | 0xC => some (.random x byte)
  | 0xD => some (.draw x y (nibble w))
  | 0xE =>
    match w % 256 with
    | 0x9E => some (.skipIf (.keyDown x))
    | 0xA1 => some (.skipIf (.keyUp x))
    | _ => none
  | _ =>
    match w % 256 with
    | 0x07 => some (.readDelay x)
    | 0x0A => some (.awaitKey x)
    | 0x15 => some (.setDelay x)
    | 0x18 => some (.setSound x)
    | 0x1E => some (.addIndex x)
    | 0x29 => some (.pointGlyph x)
    | 0x33 => some (.storeDecimal x)
    | 0x55 => some (.dump x)
    | 0x65 => some (.restore x)
    | _ => none

/-- A family's leading nibble in front of twelve bits. -/
def word (family rest : Nat) : UInt16 := (family * 4096 + rest).toUInt16

/-- The word that stands for an instruction. -/
def encode : Instruction → UInt16
  | .machineCode target => word 0x0 target
  | .clearScreen => 0x00E0
  | .ret => 0x00EE
  | .jump target => word 0x1 target
  | .call target => word 0x2 target
  | .skipIf (.equalsByte x byte) => word 0x3 (x * 256 + byte.toNat)
  | .skipIf (.differsFromByte x byte) => word 0x4 (x * 256 + byte.toNat)
  | .skipIf (.equal x y) => word 0x5 (x * 256 + y * 16)
  | .load x byte => word 0x6 (x * 256 + byte.toNat)
  | .increment x byte => word 0x7 (x * 256 + byte.toNat)
  | .combine op x y => word 0x8 (x * 256 + y * 16 + op.code)
  | .skipIf (.differ x y) => word 0x9 (x * 256 + y * 16)
  | .setIndex target => word 0xA target
  | .jumpFrom target => word 0xB target
  | .random x mask => word 0xC (x * 256 + mask.toNat)
  | .draw x y height => word 0xD (x * 256 + y * 16 + height)
  | .skipIf (.keyDown x) => word 0xE (x * 256 + 0x9E)
  | .skipIf (.keyUp x) => word 0xE (x * 256 + 0xA1)
  | .readDelay x => word 0xF (x * 256 + 0x07)
  | .awaitKey x => word 0xF (x * 256 + 0x0A)
  | .setDelay x => word 0xF (x * 256 + 0x15)
  | .setSound x => word 0xF (x * 256 + 0x18)
  | .addIndex x => word 0xF (x * 256 + 0x1E)
  | .pointGlyph x => word 0xF (x * 256 + 0x29)
  | .storeDecimal x => word 0xF (x * 256 + 0x33)
  | .dump x => word 0xF (x * 256 + 0x55)
  | .restore x => word 0xF (x * 256 + 0x65)

end Instruction

end ChipEight
