namespace ChipEight

/-- Names one of V0 to VF. -/
abbrev Register := Fin 16

/-- The twelve bits that an instruction has room for. -/
abbrev Address := Fin 4096

/-- The last four bits of a number, which name a register or count rows. -/
def nibble (n : Nat) : Fin 16 := Fin.ofNat 16 n

@[simp]
theorem val_nibble (n : Nat) : (nibble n).val = n % 16 := rfl

/-- V0, which the indexed jump adds to its target. -/
def Register.first : Register := 0

/-- VF, which arithmetic, shifts and drawing use to report. -/
def Register.flag : Register := 15

/-- The tests that skip instructions make. -/
inductive Condition
  | equalsByte (x : Register) (byte : UInt8)
  | differsFromByte (x : Register) (byte : UInt8)
  | equal (x y : Register)
  | differ (x y : Register)
  /-- The latched key has the number in Vx. -/
  | keyDown (x : Register)
  | keyUp (x : Register)
  deriving DecidableEq

/-- The operations on two registers. -/
inductive Alu
  | copy
  | or
  | and
  | xor
  | add
  | sub
  | shiftRight
  /-- Subtracts the other way round: Vy - Vx. -/
  | subFrom
  | shiftLeft
  deriving DecidableEq

inductive Instruction
  /-- A call of native code, which this machine does not have. -/
  | machineCode (target : Address)
  | clearScreen
  | ret
  | jump (target : Address)
  | call (target : Address)
  | skipIf (test : Condition)
  | load (x : Register) (byte : UInt8)
  | increment (x : Register) (byte : UInt8)
  | combine (op : Alu) (x y : Register)
  | setIndex (target : Address)
  /-- Jumps to the target plus V0. -/
  | jumpFrom (target : Address)
  | random (x : Register) (mask : UInt8)
  | draw (x y : Register) (height : Fin 16)
  | readDelay (x : Register)
  | awaitKey (x : Register)
  | setDelay (x : Register)
  | setSound (x : Register)
  | addIndex (x : Register)
  | pointGlyph (x : Register)
  | storeDecimal (x : Register)
  | dump (x : Register)
  | restore (x : Register)
  deriving DecidableEq

/-- Whether the instruction can change what is on screen. -/
def Instruction.isDisplay : Instruction → Bool
  | .clearScreen | .draw .. => true
  | _ => false

theorem Instruction.isDisplay_iff {i : Instruction} :
    i.isDisplay = true ↔ i = .clearScreen ∨ ∃ x y height, i = .draw x y height := by
  constructor
  · intro h
    cases i with
    | clearScreen => exact .inl rfl
    | draw x y height => exact .inr ⟨x, y, height, rfl⟩
    | _ => cases h
  · intro h
    rcases h with h | ⟨x, y, height, h⟩
    · rw [h]
      rfl
    · rw [h]
      rfl

end ChipEight
