import ChipEight.Numeral

namespace ChipEight

/-- A key of the hexadecimal keypad, known by its number. -/
structure Key where
  number : Fin 16
  deriving DecidableEq

namespace Key

def all : List Key := (List.finRange 16).map Key.mk

def ofNumber? (n : Nat) : Option Key := if h : n < 16 then some ⟨⟨n, h⟩⟩ else none

/-- The number as a register would hold it. -/
def toByte (k : Key) : UInt8 := k.number.val.toUInt8

/-- Digit keys carry `Key` in front, letter keys are single letters. -/
def name (k : Key) : String :=
  if k.number.val < 10 then "Key" ++ Numeral.decimal k.number
  else String.singleton (Numeral.digitChar k.number)

theorem mem_all (k : Key) : k ∈ all := by
  rw [all, List.mem_map]
  exact ⟨k.number, List.mem_finRange _, rfl⟩

end Key

/-- The keys held down and the one key that a program can see, the latch. -/
@[ext]
structure Keypad where
  held : Vector Bool 16
  latch : Option Key
  deriving DecidableEq

namespace Keypad

def initial : Keypad := ⟨Vector.replicate 16 false, none⟩

def isHeld (p : Keypad) (k : Key) : Bool := p.held[k.number]

/-- The latest press is the one that shows. -/
def press (p : Keypad) (k : Key) : Keypad := ⟨p.held.set k.number true, some k⟩

/-- Empties the latch if it shows this key, whatever else is held. -/
def release (p : Keypad) (k : Key) : Keypad :=
  ⟨p.held.set k.number false, if p.latch = some k then none else p.latch⟩

/-- Sets what a program sees and leaves the held keys alone. -/
def setLatch (p : Keypad) (k : Option Key) : Keypad := { p with latch := k }

/-- Releases every held key that is not among those down now. -/
def releaseOthers (p : Keypad) (down : List Key) : Keypad :=
  Key.all.foldl (fun p k => if p.isHeld k && !down.contains k then p.release k else p) p

/-- Presses, in order, each key that is not held yet. -/
def pressNew (p : Keypad) (down : List Key) : Keypad :=
  down.foldl (fun p k => if p.isHeld k then p else p.press k) p

/-- Takes over which keys are down. Releases come first, so that a key pressed in the same poll
stays in the latch. -/
def poll (p : Keypad) (down : List Key) : Keypad := (p.releaseOthers down).pressNew down

@[simp]
theorem isHeld_press (p : Keypad) (j k : Key) :
    (p.press j).isHeld k = (p.isHeld k || k == j) := by
  cases j; cases k
  simp only [isHeld, press, Fin.getElem_fin, Vector.getElem_set, BEq.beq]
  grind

@[simp]
theorem isHeld_release (p : Keypad) (j k : Key) :
    (p.release j).isHeld k = (p.isHeld k && k != j) := by
  cases j; cases k
  simp only [isHeld, release, Fin.getElem_fin, Vector.getElem_set, bne, BEq.beq]
  grind

@[simp]
theorem isHeld_setLatch (p : Keypad) (j : Option Key) (k : Key) :
    (p.setLatch j).isHeld k = p.isHeld k := rfl

end Keypad

end ChipEight
