import ChipEight.Cpu

namespace ChipEight

/-- What can be seen of a processor at one moment. -/
structure Snapshot where
  registers : Vector UInt8 16
  stack : Vector UInt16 16
  /-- The slot of the latest open call. -/
  stackPointer : Option UInt64
  pc : UInt16
  index : UInt16
  delay : UInt8
  sound : UInt8
  key : Option Key
  deriving DecidableEq

def Cpu.snapshot (c : Cpu) : Snapshot where
  registers := c.registers
  stack := c.stack.slots
  stackPointer := c.stack.top?.map (·.val.toUInt64)
  pc := c.pc
  index := c.index
  delay := c.delay
  sound := c.sound
  key := c.keypad.latch

end ChipEight
