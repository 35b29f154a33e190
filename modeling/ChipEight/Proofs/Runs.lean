import ChipEight.Proofs.Frames
import ChipEight.Proofs.Halting

namespace ChipEight.Session

/-- The cycles of a frame up to the first that fails and, if none does, the tick behind them. -/
def unrollFrame : Nat → Session → List Machine.Operation
  | 0, _ => [.tick]
  | n + 1, s =>
    match s.cycle.result with
    | .ok _ => .cycle :: unrollFrame n s.cycle.state
    | .error _ => [.cycle]

/-- An operation in single steps. -/
def steps (s : Session) : Operation → List Machine.Operation
  | .load program => [.load program]
  | .cycle => [.cycle]
  | .frame cycles => unrollFrame cycles s
  | .tick => [.tick]
  | .setKey key => [.setKey key]
  | .poll down => [.poll down]

/-- Operations in single steps, so that the points inside of frames can be spoken of. -/
def unroll : List Operation → Session → List Machine.Operation
  | [], _ => []
  | op :: ops, s => s.steps op ++ unroll ops (s.perform op).state

/-- What steps contribute, oldest first, where each contributes something that depends on the session
it is done to. -/
def collect {α : Type} (f : Session → Machine.Operation → List α) :
    List Machine.Operation → Session → List α
  | [], _ => []
  | op :: ops, s => f s op ++ collect f ops (s.perform op.guarded).state

/-- What a step executes, with the address it stands at. A cycle that fails executes nothing. -/
def executes (s : Session) : Machine.Operation → List (UInt16 × Instruction)
  | .cycle =>
    match s.cycle.result with
    | .ok i => [(s.machine.cpu.pc, i)]
    | .error _ => []
  | _ => []

/-- What steps execute, oldest first. -/
def executed : List Machine.Operation → Session → List (UInt16 × Instruction)
  | [], _ => []
  | op :: ops, s => s.executes op ++ executed ops (s.perform op.guarded).state

variable {s : Session}

theorem follow_append (s : Session) (before later : List Machine.Operation) :
    s.follow (before ++ later) = (s.follow before).follow later := by
  simp only [follow, after, List.map_append, List.foldl_append]

theorem follow_unrollFrame (n : Nat) (s : Session) :
    s.follow (unrollFrame n s) = (s.frame n).state := by
  induction n generalizing s with
  | zero => rfl
  | succ n ih =>
    cases h : s.cycle.result with
    | ok i =>
      rw [unrollFrame, h, frame_of_ok h]
      exact ih s.cycle.state
    | error fault =>
      rw [unrollFrame, h, frame_of_error h]
      rfl

theorem follow_steps (op : Operation) (s : Session) :
    s.follow (s.steps op) = (s.perform op).state := by
  cases op with
  | frame cycles => exact follow_unrollFrame cycles s
  | _ => rfl

/-- The steps lead where the operations lead. -/
theorem follow_unroll (ops : List Operation) (s : Session) :
    s.follow (s.unroll ops) = s.after ops := by
  induction ops generalizing s with
  | nil => rfl
  | cons op ops ih => rw [unroll, follow_append, follow_steps, ih, after_cons]

/-- Single steps are their own unrolling. -/
theorem unroll_guarded (ops : List Machine.Operation) (s : Session) :
    s.unroll (ops.map (·.guarded)) = ops := by
  induction ops generalizing s with
  | nil => rfl
  | cons op ops ih =>
    rw [List.map_cons, unroll, ih]
    cases op <;> rfl

theorem collect_append {α : Type} (f : Session → Machine.Operation → List α)
    (before later : List Machine.Operation) (s : Session) :
    s.collect f (before ++ later) = s.collect f before ++ (s.follow before).collect f later := by
  induction before generalizing s with
  | nil => rfl
  | cons op ops ih =>
    rw [List.cons_append, collect, collect, ih, List.append_assoc]
    rfl

/-- What holds at the start and is kept by every step holds all along, of what has been collected
and of the session that is left. -/
theorem collect_induction {α : Type} {f : Session → Machine.Operation → List α}
    {P : List α → Session → Prop} (start : P [] s)
    (step : ∀ past t op, P past t → P (past ++ f t op) (t.perform op.guarded).state)
    (ops : List Machine.Operation) : P (s.collect f ops) (s.follow ops) := by
  -- The past has to vary for the induction to go through.
  have general : ∀ past t, P past t → P (past ++ t.collect f ops) (t.follow ops) := by
    induction ops with
    | nil =>
      intro past t h
      rw [collect, List.append_nil]
      exact h
    | cons op ops ih =>
      intro past t h
      rw [collect, ← List.append_assoc, follow_cons]
      exact ih _ _ (step past t op h)
  exact general [] s start

theorem executed_eq_collect (ops : List Machine.Operation) (s : Session) :
    s.executed ops = s.collect executes ops := by
  induction ops generalizing s with
  | nil => rfl
  | cons op ops ih => rw [executed, collect, ih]

theorem executed_induction {P : List (UInt16 × Instruction) → Session → Prop} (start : P [] s)
    (step : ∀ past t op, P past t → P (past ++ t.executes op) (t.perform op.guarded).state)
    (ops : List Machine.Operation) : P (s.executed ops) (s.follow ops) := by
  rw [executed_eq_collect]
  exact collect_induction start step ops

/-- A session executes the instruction it stands at. -/
theorem cycle_of_next? {i : Instruction} (live : s.halted = false) (hi : s.machine.next? = some i)
    (hok : (s.machine.fetched.execute i).result = .ok ()) :
    s.cycle.result = .ok i ∧ s.cycle.state = s.past i := by
  have hcycle := Machine.cycle_of_next? hi
  have hresult : s.machine.cycle.result = .ok i := by
    rw [hcycle]
    exact Outcome.result_map_eq_ok.2 ⟨(), hok, rfl⟩
  rw [cycle_of_ok live hresult, hcycle]
  exact ⟨rfl, rfl⟩

theorem cycle_of_word {w : UInt16} {i : Instruction} (live : s.halted = false)
    (hw : s.currentOpcode = .ok w) (hd : Instruction.decode w = some i)
    (hok : (s.machine.fetched.execute i).result = .ok ()) :
    s.cycle.result = .ok i ∧ s.cycle.state = s.past i :=
  cycle_of_next? live (Machine.next?_eq_some.2 ⟨w, hw, hd⟩) hok

/-- Where a session has answered with an instruction, its machine has executed it. -/
theorem cycle_ok {i : Instruction} (h : s.cycle.result = .ok i) :
    s.machine.next? = some i ∧ (s.machine.fetched.execute i).result = .ok () ∧
      s.cycle.state = s.past i := by
  have live := live_of_ok h
  rw [result_cycle live] at h
  obtain ⟨w, hw, hd, hc⟩ := Machine.cycle_ok h
  rw [cycle_of_ok live h, hc]
  rw [hc] at h
  obtain ⟨_, hok, -⟩ := Outcome.result_map_eq_ok.1 h
  exact ⟨Machine.next?_eq_some.2 ⟨w, hw, hd⟩, hok, rfl⟩

/-- Only cycles reach the parts of a processor that callers cannot set. -/
theorem cpu_perform {op : Machine.Operation} (h : op ≠ .cycle) :
    ∃ delay sound keypad, (s.perform op.guarded).state.machine.cpu =
      { s.machine.cpu with delay := delay, sound := sound, keypad := keypad } := by
  cases op with
  | cycle => exact absurd rfl h
  | load program =>
    refine ⟨s.machine.cpu.delay, s.machine.cpu.sound, s.machine.cpu.keypad, ?_⟩
    show (s.load program).state.machine.cpu = _
    rw [(machine_load s program).2, Machine.state_load]
  | _ => exact ⟨_, _, _, rfl⟩

theorem executes_of_ne_cycle {op : Machine.Operation} (h : op ≠ .cycle) : s.executes op = [] := by
  cases op with
  | cycle => exact absurd rfl h
  | _ => rfl

theorem executes_of_ok {i : Instruction} (h : s.cycle.result = .ok i) :
    s.executes .cycle = [(s.machine.cpu.pc, i)] := by
  rw [executes, h]

theorem executes_of_error {fault : Fault} (h : s.cycle.result = .error fault) :
    s.executes .cycle = [] := by
  rw [executes, h]

end ChipEight.Session
