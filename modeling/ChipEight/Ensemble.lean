import ChipEight.Machine

namespace ChipEight

/-- Processors that share one memory and one display. -/
structure Ensemble (n : Nat) where
  cpus : Vector Cpu n
  memory : Memory
  display : Display
  deriving DecidableEq

namespace Ensemble

variable {n : Nat}

/-- One processor for each configuration, each with a source of randomness of its own, on a fresh
memory and a blank display. -/
def start (configs : Vector Config n) (entropy : Vector Random.CipherKey n)
    (logger : Option Log.Logger) : Ensemble n where
  cpus := Vector.zipWith (fun config key => .start config key logger) configs entropy
  memory := .initial
  display := .blank

/-- The machine as one of the processors has it. -/
def machine (e : Ensemble n) (i : Fin n) : Machine := ⟨e.cpus[i], e.memory, e.display⟩

/-- Takes over what a machine has become. -/
def put (e : Ensemble n) (i : Fin n) (m : Machine) : Ensemble n :=
  ⟨e.cpus.set i m.cpu, m.memory, m.display⟩

def modify (e : Ensemble n) (i : Fin n) (f : Cpu → Cpu) : Ensemble n :=
  { e with cpus := e.cpus.set i (f e.cpus[i]) }

/-- One cycle of one processor. Faults do not halt it. -/
def cycle (e : Ensemble n) (i : Fin n) : Outcome (Ensemble n) Instruction :=
  (e.machine i).cycle.within (e.put i)

/-- A program that does not fit changes nothing. -/
def load (e : Ensemble n) (program : List UInt8) : Outcome (Ensemble n) Unit :=
  match e.memory.load program with
  | .ok memory => .done { e with memory := memory } ()
  | .error fault => .fail e fault []

def store (e : Ensemble n) (address : Nat) (bytes : List UInt8) : Outcome (Ensemble n) Unit :=
  let (memory, fault) := e.memory.writeMany address bytes
  .ofFault { e with memory := memory } fault

def plot (e : Ensemble n) (x : Column) (y : Row) (value : UInt8) : Outcome (Ensemble n) Bool :=
  let (display, hit) := e.display.plot x y value
  .done { e with display := display } hit

def clear (e : Ensemble n) : Ensemble n := { e with display := .blank }

end Ensemble

end ChipEight
