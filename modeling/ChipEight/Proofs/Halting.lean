import ChipEight.Proofs.BareMachine
import ChipEight.Session.History

namespace ChipEight

/-- The operation on a session that does the same to its machine. -/
def Machine.Operation.guarded : Machine.Operation → Session.Operation
  | .load program => .load program
  | .cycle => .cycle
  | .tick => .tick
  | .setKey key => .setKey key
  | .poll down => .poll down

namespace Session

/-- The session after the operations of a bare machine. -/
def follow (s : Session) (ops : List Machine.Operation) : Session := s.after (ops.map (·.guarded))

variable {s : Session} {m : Machine}

theorem after_cons (s : Session) (op : Session.Operation) (ops : List Session.Operation) :
    s.after (op :: ops) = (s.perform op).state.after ops := rfl

theorem follow_cons (s : Session) (op : Machine.Operation) (ops : List Machine.Operation) :
    s.follow (op :: ops) = (s.perform op.guarded).state.follow ops := rfl

theorem machine_load (s : Session) (program : List UInt8) :
    (s.load program).result = (s.machine.load program).result ∧
      (s.load program).state = { s with machine := (s.machine.load program).state } := by
  cases h : s.machine.memory.load program <;>
  · simp only [load, Machine.load, h]
    exact ⟨rfl, rfl⟩

/-- Until a cycle fails, a session does to its machine what would happen to a bare one. -/
theorem perform_of_not_stumbles (live : s.halted = false) {op : Machine.Operation}
    (hop : ¬ s.machine.Stumbles op) :
    (s.perform op.guarded).state = { s with machine := s.machine.perform op } := by
  cases op with
  | load program => exact (machine_load s program).2
  | cycle =>
    cases h : s.machine.cycle.result with
    | ok i =>
      show s.cycle.state = _
      rw [cycle_of_ok live h]
      rfl
    | error fault => exact absurd ⟨rfl, fault, h⟩ hop
  | _ => rfl

theorem halted_of_stumbles (live : s.halted = false) {op : Machine.Operation}
    (hop : s.machine.Stumbles op) : (s.perform op.guarded).state.halted = true := by
  obtain ⟨hcycle, fault, h⟩ := hop
  subst hcycle
  show s.cycle.state.halted = true
  rw [cycle_of_error live h]
  rfl

theorem frame_of_halted (h : s.halted = true) (n : Nat) : s.frame (n + 1) = .fail s .halted [] := by
  rw [frame, cycle_of_halted h]
  rfl

/-- All that an operation does to a halted session. -/
theorem perform_of_halted (h : s.halted = true) (op : Session.Operation) :
    (∃ program, op = .load program ∧
      (s.perform op).state =
        { s with
          machine := { s.machine with memory := (s.machine.load program).state.memory } }) ∨
    ((op = .tick ∨ op = .frame 0) ∧ (s.perform op).state = s.tick) ∨
    (∃ key, op = .setKey key ∧ (s.perform op).state = s.setKey key) ∨
    (∃ down, op = .poll down ∧ (s.perform op).state = s.poll down) ∨
    (s.perform op).state = s := by
  cases op with
  | load program =>
    refine .inl ⟨program, rfl, ?_⟩
    rw [← Machine.state_load]
    exact (machine_load s program).2
  | cycle =>
    refine .inr (.inr (.inr (.inr ?_)))
    rw [perform, Outcome.state_map, cycle_of_halted h, Outcome.state_fail]
  | frame n =>
    cases n with
    | zero => exact .inr (.inl ⟨.inr rfl, rfl⟩)
    | succ n =>
      refine .inr (.inr (.inr (.inr ?_)))
      rw [perform, Outcome.state_map, frame_of_halted h, Outcome.state_fail]
  | tick => exact .inr (.inl ⟨.inl rfl, rfl⟩)
  | setKey key => exact .inr (.inr (.inl ⟨key, rfl, rfl⟩))
  | poll down => exact .inr (.inr (.inr (.inl ⟨down, rfl, rfl⟩)))

/-- What never changes in a halted session. -/
structure Frozen (s t : Session) : Prop where
  halted : t.halted = true
  registers : t.machine.cpu.registers = s.machine.cpu.registers
  index : t.machine.cpu.index = s.machine.cpu.index
  pc : t.machine.cpu.pc = s.machine.cpu.pc
  stack : t.machine.cpu.stack = s.machine.cpu.stack
  random : t.machine.cpu.random = s.machine.cpu.random
  shiftInPlace : t.machine.cpu.shiftInPlace = s.machine.cpu.shiftInPlace
  display : t.machine.display = s.machine.display

theorem Frozen.refl (h : s.halted = true) : s.Frozen s := ⟨h, rfl, rfl, rfl, rfl, rfl, rfl, rfl⟩

theorem Frozen.trans {t u : Session} (h : s.Frozen t) (h' : t.Frozen u) : s.Frozen u where
  halted := h'.halted
  registers := h'.registers.trans h.registers
  index := h'.index.trans h.index
  pc := h'.pc.trans h.pc
  stack := h'.stack.trans h.stack
  random := h'.random.trans h.random
  shiftInPlace := h'.shiftInPlace.trans h.shiftInPlace
  display := h'.display.trans h.display

theorem frozen_perform (h : s.halted = true) (op : Session.Operation) :
    s.Frozen (s.perform op).state := by
  rcases perform_of_halted h op with ⟨program, -, hs⟩ | ⟨-, hs⟩ | ⟨key, -, hs⟩ | ⟨down, -, hs⟩ | hs <;>
  · rw [hs]
    exact ⟨h, rfl, rfl, rfl, rfl, rfl, rfl, rfl⟩

theorem frozen_after (h : s.halted = true) (ops : List Session.Operation) :
    s.Frozen (s.after ops) := by
  induction ops generalizing s with
  | nil => exact .refl h
  | cons op ops ih =>
    rw [after_cons]
    have hfirst := frozen_perform h op
    exact hfirst.trans (ih hfirst.halted)

/-- A session that refuses to run and whose timers, keypad and memory each answer to the caller
alone. -/
structure Inert (s : Session) : Prop where
  cycle : s.cycle = .fail s .halted []
  frame : ∀ n, s.frame (n + 1) = .fail s .halted []
  timers : ∀ op, op ≠ .tick → op ≠ .frame 0 →
    (s.perform op).state.machine.cpu.delay = s.machine.cpu.delay ∧
      (s.perform op).state.machine.cpu.sound = s.machine.cpu.sound
  keypad : ∀ op, (∀ key, op ≠ .setKey key) → (∀ down, op ≠ .poll down) →
    (s.perform op).state.machine.cpu.keypad = s.machine.cpu.keypad
  memory : ∀ op, (∀ program, op ≠ .load program) →
    (s.perform op).state.machine.memory = s.machine.memory

theorem inert_of_halted (h : s.halted = true) : s.Inert where
  cycle := cycle_of_halted h
  frame := frame_of_halted h
  timers op htick hframe := by
    rcases perform_of_halted h op with ⟨program, -, hs⟩ | ⟨hop | hop, -⟩ | ⟨key, -, hs⟩ |
      ⟨down, -, hs⟩ | hs
    case inr.inl.inl => exact absurd hop htick
    case inr.inl.inr => exact absurd hop hframe
    all_goals exact ⟨congrArg (·.machine.cpu.delay) hs, congrArg (·.machine.cpu.sound) hs⟩
  keypad op hset hpoll := by
    rcases perform_of_halted h op with ⟨program, -, hs⟩ | ⟨-, hs⟩ | ⟨key, hop, -⟩ |
      ⟨down, hop, -⟩ | hs
    case inr.inr.inl => exact absurd hop (hset key)
    case inr.inr.inr.inl => exact absurd hop (hpoll down)
    all_goals exact congrArg (·.machine.cpu.keypad) hs
  memory op hload := by
    rcases perform_of_halted h op with ⟨program, hop, -⟩ | ⟨-, hs⟩ | ⟨key, -, hs⟩ |
      ⟨down, -, hs⟩ | hs
    case inl => exact absurd hop (hload program)
    all_goals exact congrArg (·.machine.memory) hs

/-- A session has halted exactly when some cycle of the bare machine has failed. Until then the two
are alike. -/
theorem follow_spec (ops : List Machine.Operation) (s : Session) (m : Machine)
    (live : s.halted = false) (alike : s.machine.Alike m) :
    ((s.follow ops).halted = true ↔ m.Faults ops) ∧
      (¬ m.Faults ops → (s.follow ops).machine.Alike (m.after ops)) := by
  -- Before the first failing cycle both sides step together; at it the session stops for good.
  induction ops generalizing s m with
  | nil =>
    have hnot := m.not_faults_nil
    refine ⟨⟨fun h => ?_, fun h => absurd h hnot⟩, fun _ => alike⟩
    cases live.symm.trans h
  | cons op ops ih =>
    rw [follow_cons, Machine.faults_cons, ← alike.stumbles]
    by_cases hop : s.machine.Stumbles op
    · have hhalted := halted_of_stumbles live hop
      have hstays := (frozen_after hhalted (ops.map (·.guarded))).halted
      exact ⟨⟨fun _ => .inl hop, fun _ => hstays⟩, fun h => absurd (.inl hop) h⟩
    · have hstate := perform_of_not_stumbles live hop
      obtain ⟨hiff, halike⟩ := ih { s with machine := s.machine.perform op } (m.perform op) live
        (alike.perform op)
      rw [hstate, hiff]
      refine ⟨⟨.inr, fun h => h.resolve_left hop⟩, fun h => ?_⟩
      exact halike fun hf => h (.inr hf)

/-- A session does as a bare machine does up to and with the first failing cycle, which halts it for
good. -/
theorem halting (s : Session) (m : Machine) (alike : s.machine.Alike m) :
    (s.halted = false → ∀ ops : List Machine.Operation,
      ((s.follow ops).halted = true ↔ m.Faults ops) ∧
      (¬ m.Faults ops →
        (s.follow ops).machine.Alike (m.after ops) ∧
        (s.follow ops).cycle.result = (m.after ops).cycle.result ∧
        (s.follow ops).cycle.state.machine.Alike (m.after ops).cycle.state ∧
        ∀ program, ((s.follow ops).load program).result = ((m.after ops).load program).result) ∧
      (m.Faults ops → ∀ more : List Session.Operation,
        (s.follow ops).Frozen ((s.follow ops).after more) ∧
          ((s.follow ops).after more).Inert)) ∧
    (s.halted = true → ∀ more : List Session.Operation,
      s.Frozen (s.after more) ∧ (s.after more).Inert) := by
  have hfrozen (t : Session) (h : t.halted = true) (more : List Session.Operation) :
      t.Frozen (t.after more) ∧ (t.after more).Inert :=
    ⟨frozen_after h more, inert_of_halted (frozen_after h more).halted⟩
  refine ⟨fun live ops => ?_, hfrozen s⟩
  obtain ⟨hiff, halike⟩ := follow_spec ops s m live alike
  refine ⟨hiff, fun hnot => ?_, fun h => hfrozen _ (hiff.2 h)⟩
  have hlive : (s.follow ops).halted = false := Bool.eq_false_iff.2 (mt hiff.1 hnot)
  obtain ⟨hresult, hstate⟩ := (halike hnot).cycle
  refine ⟨halike hnot, ?_, ?_, fun program => ?_⟩
  · rw [result_cycle hlive, hresult]
  · rw [machine_cycle hlive]
    exact hstate
  · rw [(machine_load _ program).1]
    exact (halike hnot).load program

/-- Loading a program does not help a session that has run without one. -/
theorem halting_without_program :
    let s := start {} (Vector.replicate 8 0) none
    (s.follow [.cycle]).halted = true ∧ ∀ program,
      ((s.follow [.cycle]).after [.load program, .frame 0]).frame 9 =
        .fail ((s.follow [.cycle]).after [.load program, .frame 0]) .halted [] := by
  intro s
  have hzero : Memory.initial.readWord 0x200 = .ok 0x0000 :=
    Memory.readWord_of_get? (Memory.get?_initial (by decide)) (Memory.get?_initial (by decide))
  have hfaults : s.machine.Faults [.cycle] := ⟨[], [], rfl, _, Machine.result_cycle_of_zero hzero⟩
  obtain ⟨hiff, -, hmore⟩ := (halting s s.machine rfl).1 rfl [.cycle]
  exact ⟨hiff.2 hfaults, fun program => (hmore hfaults [.load program, .frame 0]).2.frame 8⟩

end Session

end ChipEight
