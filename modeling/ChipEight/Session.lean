import ChipEight.Machine
import ChipEight.Snapshot

namespace ChipEight

/-- A machine that stops for good at its first fault. -/
structure Session where
  machine : Machine
  halted : Bool
  logger : Option Log.Logger
  deriving DecidableEq

namespace Session

/-- Instructions between two ticks of the timers, by default. -/
def cyclesPerFrame : Nat := 9

/-- The processor's records say that they are the interpreter's. -/
def start (config : Config) (entropy : Random.CipherKey) (logger : Option Log.Logger) : Session where
  machine :=
    { cpu := .start config entropy (logger.map (·.child [("component", "interpreter")]))
      memory := .initial
      display := .blank }
  halted := false
  logger := logger

/-- A program that does not fit changes nothing. Loading does not wake a halted session. -/
def load (s : Session) (program : List UInt8) : Outcome Session Unit :=
  match s.machine.memory.load program with
  | .ok memory =>
    ⟨.ok (), { s with machine := { s.machine with memory := memory } },
      Log.emit s.logger .info "loaded program" [("size", Numeral.decimal program.length)]⟩
  | .error fault =>
    .fail s fault (Log.emit s.logger .error "failed to load program" [("error", fault.message)])

/-- A session that has a program to run. -/
def launch (program : List UInt8) (config : Config) (entropy : Random.CipherKey)
    (logger : Option Log.Logger) : Outcome Session Unit :=
  (start config entropy logger).load program

/-- Executes one instruction. A fault halts the session. -/
def cycle (s : Session) : Outcome Session Instruction :=
  if s.halted then .fail s .halted []
  else
    let o := s.machine.cycle
    match o.result with
    | .ok instruction => ⟨.ok instruction, { s with machine := o.state }, o.records⟩
    | .error fault =>
      .fail { s with machine := o.state, halted := true } fault
        (o.records ++ Log.emit s.logger .error "halting" [("error", fault.message)])

/-- Timers count on in a halted session. -/
def tick (s : Session) : Session :=
  { s with machine := { s.machine with cpu := s.machine.cpu.tick } }

def setKey (s : Session) (key : Option Key) : Session :=
  { s with machine := { s.machine with cpu := s.machine.cpu.setKey key } }

/-- Takes over which keys are down. -/
def poll (s : Session) (down : List Key) : Session :=
  { s with machine := { s.machine with cpu := s.machine.cpu.poll down } }

/-- Executes that many instructions, then ticks. Answers whether one of them was a display
instruction. A fault leaves the rest of the frame out, the tick too. -/
def frame : Nat → Session → Outcome Session Bool
  | 0, s => .done s.tick false
  | n + 1, s => s.cycle.andThen fun instruction s => (frame n s).map (instruction.isDisplay || ·)

/-- The word that the next cycle executes. -/
def currentOpcode (s : Session) : Except Fault UInt16 :=
  s.machine.memory.readWord s.machine.cpu.pc.toNat

def snapshot (s : Session) : Snapshot := s.machine.cpu.snapshot

def soundActive (s : Session) : Bool := s.machine.cpu.soundActive

end Session

end ChipEight
