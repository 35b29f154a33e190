import ChipEight.Log

namespace ChipEight

/-- Settings of a session. -/
structure Config where
  /-- Whether shifts take Vx as their source; otherwise they shift Vy into Vx. Programs disagree
  on which of the two they expect. -/
  shiftInPlace : Bool := true
  /-- Fixes the random numbers. -/
  seed : Option UInt64 := none
  logLevel : Log.Level := .info
  deriving DecidableEq

end ChipEight
