import ChipEight.Fault
import ChipEight.Memory.Font

namespace ChipEight

/-- Addresses run from 0 to 0xFFE. -/
def Memory.size : Nat := 4095

/-- Where programs are loaded and where execution starts. -/
def Memory.programStart : Nat := 0x200

@[ext]
structure Memory where
  bytes : Vector UInt8 Memory.size
  deriving DecidableEq

namespace Memory

/-- The longest program that fits behind the program start. -/
def maxProgram : Nat := size - programStart

/-- Zero everywhere but for the font. -/
def initial : Memory := ⟨Vector.ofFn fun a => font.getD a 0⟩

def get? (m : Memory) (address : Nat) : Option UInt8 := m.bytes[address]?

def read (m : Memory) (address : Nat) : Except Fault UInt8 :=
  match m.get? address with
  | some byte => .ok byte
  | none => .error (.addressOutOfBounds address)

/-- Two bytes, the more significant one first. -/
def readWord (m : Memory) (address : Nat) : Except Fault UInt16 := do
  let high ← m.read address
  let low ← m.read (address + 1)
  return high.toUInt16 * 256 + low.toUInt16

/-- Reads `n` bytes in a row. The bytes in front of the first fault are kept. -/
def readMany (m : Memory) (address : Nat) : Nat → List UInt8 × Option Fault
  | 0 => ([], none)
  | n + 1 =>
    match m.read address with
    | .error fault => ([], some fault)
    | .ok byte =>
      let (bytes, fault) := m.readMany (address + 1) n
      (byte :: bytes, fault)

def write (m : Memory) (address : Nat) (byte : UInt8) : Except Fault Memory :=
  if h : address < size then .ok ⟨m.bytes.set address byte h⟩
  else .error (.addressOutOfBounds address)

/-- Writes bytes in a row. Those in front of the first fault stay written. -/
def writeMany (m : Memory) (address : Nat) : List UInt8 → Memory × Option Fault
  | [] => (m, none)
  | byte :: bytes =>
    match m.write address byte with
    | .error fault => (m, some fault)
    | .ok m => m.writeMany (address + 1) bytes

/-- A program that does not fit is refused as a whole. -/
def load (m : Memory) (program : List UInt8) : Except Fault Memory :=
  if program.length ≤ maxProgram then .ok (m.writeMany programStart program).1
  else .error (.programTooLarge program.length maxProgram)

theorem get?_eq_none {m : Memory} {a : Nat} : m.get? a = none ↔ size ≤ a := by
  simp [get?]

theorem get?_write {m m' : Memory} {a : Nat} {byte : UInt8} (h : m.write a byte = .ok m')
    (k : Nat) : m'.get? k = if k = a then some byte else m.get? k := by
  unfold write at h
  split at h
  · rename_i ha
    cases h
    simp only [get?, Vector.getElem?_set, eq_comm (a := k)]
  · cases h

/-- The bytes land where they fit and nothing else changes. -/
theorem get?_writeMany (m : Memory) (a : Nat) (bytes : List UInt8) (k : Nat) :
    (m.writeMany a bytes).1.get? k =
      if a ≤ k ∧ k < size then (bytes[k - a]?).or (m.get? k) else m.get? k := by
  induction bytes generalizing m a with
  | nil => simp [writeMany]
  | cons byte bytes ih =>
    unfold writeMany write
    split
    · rename_i h
      split at h
      · cases h
      · by_cases hk : a ≤ k ∧ k < size
        · omega
        · simp [hk]
    · rename_i m' h
      rw [ih, get?_write h]
      by_cases hk : k = a
      · subst hk
        have : ¬ (k + 1 ≤ k) := by omega
        split at h
        · simp [*]
        · cases h
      · by_cases hak : a + 1 ≤ k
        · have hs : k - a = (k - (a + 1)) + 1 := by omega
          simp [hk, hak, hs, show a ≤ k by omega]
        · simp [hk, hak, show ¬ a ≤ k by omega]

end Memory

end ChipEight
