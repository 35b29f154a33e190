import ChipEight.CallStack
import ChipEight.Config
import ChipEight.Fault
import ChipEight.Instruction
import ChipEight.Keypad
import ChipEight.Memory
import ChipEight.Random.Generator
import ChipEight.Random.Seed

namespace ChipEight

/-- The value an operation gives Vx and, if it reports one, the flag for VF. -/
def Alu.eval : Alu → UInt8 → UInt8 → UInt8 × Option Bool
  | .copy, _, b => (b, none)
  | .or, a, b => (a ||| b, none)
  | .and, a, b => (a &&& b, none)
  | .xor, a, b => (a ^^^ b, none)
  | .add, a, b => (a + b, some (255 < a.toNat + b.toNat))
  | .sub, a, b => (a - b, some (b ≤ a))
  | .shiftRight, _, b => (b >>> 1, some (b % 2 = 1))
  | .subFrom, a, b => (b - a, some (a ≤ b))
  | .shiftLeft, _, b => (b <<< 1, some (128 ≤ b))

def Alu.isShift : Alu → Bool
  | .shiftRight | .shiftLeft => true
  | _ => false

/-- Registers, timers, call stack and keypad; memory and display are the machine's. -/
structure Cpu where
  registers : Vector UInt8 16
  index : UInt16
  pc : UInt16
  stack : CallStack
  delay : UInt8
  sound : UInt8
  keypad : Keypad
  shiftInPlace : Bool
  random : Random.Generator
  logger : Option Log.Logger
  deriving DecidableEq

namespace Cpu

/-- A processor that has run nothing yet. Without a seed its random numbers come from the given
key. -/
def start (config : Config) (entropy : Random.CipherKey) (logger : Option Log.Logger) : Cpu where
  registers := Vector.replicate 16 0
  index := 0
  pc := Memory.programStart.toUInt16
  stack := .empty
  delay := 0
  sound := 0
  keypad := .initial
  shiftInPlace := config.shiftInPlace
  random := .ofKey (config.seed.elim entropy Random.CipherKey.ofSeed)
  logger := logger

def get (c : Cpu) (x : Register) : UInt8 := c.registers[x]

def set (c : Cpu) (x : Register) (byte : UInt8) : Cpu :=
  { c with registers := c.registers.set x byte }

/-- Written after any result, so the flag wins where an operation's target is VF itself. -/
def setFlag (c : Cpu) (flag : Bool) : Cpu := c.set .flag flag.toUInt8

/-- Overwrites the first registers. -/
def setMany (c : Cpu) (bytes : List UInt8) : Cpu :=
  { c with registers := Vector.ofFn fun x => bytes.getD x (c.get x) }

/-- The registers V0 to Vx. -/
def upTo (c : Cpu) (x : Register) : List UInt8 := c.registers.toList.take (x + 1)

def advance (c : Cpu) : Cpu := { c with pc := c.pc + 2 }

/-- The address of the instruction being executed, which the counter has already moved past. -/
def origin (c : Cpu) : UInt16 := c.pc - 2

/-- Whether the latched key has the number that Vx holds. -/
def showsKey (c : Cpu) (x : Register) : Bool := c.keypad.latch.map Key.toByte = some (c.get x)

def holds (c : Cpu) : Condition → Bool
  | .equalsByte x byte => c.get x = byte
  | .differsFromByte x byte => c.get x ≠ byte
  | .equal x y => c.get x = c.get y
  | .differ x y => c.get x ≠ c.get y
  | .keyDown x => c.showsKey x
  | .keyUp x => !c.showsKey x

/-- Both operands are read before anything is written. -/
def combine (c : Cpu) (op : Alu) (x y : Register) : Cpu :=
  let source := if op.isShift && c.shiftInPlace then x else y
  let (value, flag) := op.eval (c.get x) (c.get source)
  let c := c.set x value
  flag.elim c c.setFlag

/-- Counts both timers down, stopping at zero. -/
def tick (c : Cpu) : Cpu :=
  { c with
    delay := if c.delay = 0 then 0 else c.delay - 1
    sound := if c.sound = 0 then 0 else c.sound - 1 }

def setKey (c : Cpu) (key : Option Key) : Cpu := { c with keypad := c.keypad.setLatch key }

def poll (c : Cpu) (down : List Key) : Cpu := { c with keypad := c.keypad.poll down }

def soundActive (c : Cpu) : Bool := 0 < c.sound

/-- Records a fatal condition. -/
def report (c : Cpu) (message : String) (fields : Log.Fields) : List Log.Record :=
  Log.emit c.logger .critical message fields

theorem get_set (c : Cpu) (x r : Register) (byte : UInt8) :
    (c.set x byte).get r = if r = x then byte else c.get r := by
  simp only [get, set, Fin.getElem_fin, Vector.getElem_set, Fin.ext_iff, eq_comm]

theorem get_set_of_ne (c : Cpu) {x r : Register} (byte : UInt8) (h : r ≠ x) :
    (c.set x byte).get r = c.get r := by
  rw [get_set, if_neg h]

theorem get_setMany (c : Cpu) (bytes : List UInt8) (r : Register) :
    (c.setMany bytes).get r = bytes.getD r (c.get r) := by
  simp [get, setMany]

@[simp]
theorem pc_setMany (c : Cpu) (bytes : List UInt8) : (c.setMany bytes).pc = c.pc := by
  rw [setMany]

@[simp]
theorem stack_setMany (c : Cpu) (bytes : List UInt8) : (c.setMany bytes).stack = c.stack := by
  rw [setMany]

end Cpu

end ChipEight
