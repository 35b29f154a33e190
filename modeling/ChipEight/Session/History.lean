import ChipEight.Session

namespace ChipEight.Session

/-- What a caller can do to a session. -/
inductive Operation
  | load (program : List UInt8)
  | cycle
  | frame (cycles : Nat)
  | tick
  | setKey (key : Option Key)
  | poll (down : List Key)
  deriving DecidableEq

/-- What a caller is told. -/
inductive Answer
  | loaded
  | executed (instruction : Instruction)
  | redraw (changed : Bool)
  | done
  deriving DecidableEq

def perform (op : Operation) (s : Session) : Outcome Session Answer :=
  match op with
  | .load program => (s.load program).map fun _ => .loaded
  | .cycle => s.cycle.map .executed
  | .frame cycles => (s.frame cycles).map .redraw
  | .tick => .done s.tick .done
  | .setKey key => .done (s.setKey key) .done
  | .poll down => .done (s.poll down) .done

/-- Performs operations in order, whether or not they succeed. Each is kept with its outcome. -/
def history : List Operation → Session → List (Operation × Outcome Session Answer)
  | [], _ => []
  | op :: ops, s =>
    let o := s.perform op
    (op, o) :: history ops o.state

/-- The state after some operations. -/
def after (ops : List Operation) (s : Session) : Session :=
  ops.foldl (fun s op => (s.perform op).state) s

end ChipEight.Session
