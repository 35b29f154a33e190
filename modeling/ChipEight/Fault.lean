import ChipEight.Numeral

namespace ChipEight

/-- Why a machine stops. Each fault carries what is needed to find its cause. -/
inductive Fault
  | unsupportedCall (opcode pc : UInt16)
  | unknownOpcode (opcode pc : UInt16)
  | addressOutOfBounds (address : Nat)
  | programTooLarge (size limit : Nat)
  | stackOverflow (pc : UInt16)
  | stackUnderflow (pc : UInt16)
  /-- Reported by a session that an earlier fault has halted. -/
  | halted
  deriving DecidableEq

open Numeral

/-- An opcode has four places. -/
def opcodeText (opcode : UInt16) : String := hex 4 opcode.toNat

/-- A program counter has three places. -/
def counterText (pc : UInt16) : String := hex 3 pc.toNat

def Fault.message : Fault → String
  | .unsupportedCall opcode pc =>
    "unsupported machine code call " ++ opcodeText opcode ++ " at pc " ++ counterText pc
  | .unknownOpcode opcode pc =>
    "unknown opcode " ++ opcodeText opcode ++ " at pc " ++ counterText pc
  | .addressOutOfBounds address =>
    "memory access out of bounds at address " ++ hex 4 address
  | .programTooLarge size limit =>
    "program is too large (" ++ decimal size ++ " bytes), max size is " ++ decimal limit ++ " bytes"
  | .stackOverflow pc =>
    "stack overflow: subroutine call at pc " ++ counterText pc ++ " with a full call stack"
  | .stackUnderflow pc =>
    "stack underflow: return at pc " ++ counterText pc ++ " with an empty call stack"
  | .halted => "interpreter halted after a previous fatal error"

end ChipEight
