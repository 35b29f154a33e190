import ChipEight.Proofs.BareMachine
import ChipEight.Proofs.Frames

namespace ChipEight

namespace Machine

/-- The fault of the first failing cycle among operations. -/
def FirstFault (m : Machine) (ops : List Operation) (fault : Fault) : Prop :=
  ∃ before later, ops = before ++ .cycle :: later ∧ ¬ m.Faults before ∧
    (m.after before).cycle.result = .error fault

def fault? (m : Machine) : Operation → Option Fault
  | .cycle =>
    match m.cycle.result with
    | .ok _ => none
    | .error fault => some fault
  | _ => none

/-- Performs operations up to the first failing cycle. -/
def attempt : List Operation → Machine → Except Fault Machine
  | [], m => .ok m
  | op :: ops, m =>
    match m.fault? op with
    | none => attempt ops (m.perform op)
    | some fault => .error fault

variable {m : Machine} {op : Operation} {ops : List Operation} {fault : Fault}

theorem fault?_eq_some : m.fault? op = some fault ↔ op = .cycle ∧ m.cycle.result = .error fault := by
  cases op with
  | cycle =>
    cases h : m.cycle.result with
    | ok i => simp [fault?, h]
    | error fault' => simp [fault?, h]
  | _ => simp [fault?]

theorem stumbles_iff : m.Stumbles op ↔ ∃ fault, m.fault? op = some fault := by
  simp only [fault?_eq_some, Stumbles, exists_and_left]

theorem not_stumbles_iff : ¬ m.Stumbles op ↔ m.fault? op = none := by
  rw [stumbles_iff, Option.eq_none_iff_forall_ne_some, not_exists]

theorem not_firstFault_nil (fault : Fault) : ¬ m.FirstFault [] fault := by
  intro h
  obtain ⟨before, later, hops, -⟩ := h
  cases before <;> cases hops

theorem firstFault_cons : m.FirstFault (op :: ops) fault ↔
    m.fault? op = some fault ∨ m.fault? op = none ∧ (m.perform op).FirstFault ops fault := by
  constructor
  · intro h
    obtain ⟨before, later, hops, clean, hfault⟩ := h
    cases before with
    | nil =>
      cases hops
      exact .inl (fault?_eq_some.2 ⟨rfl, hfault⟩)
    | cons first before =>
      cases hops
      rw [faults_cons, not_or, not_stumbles_iff] at clean
      exact .inr ⟨clean.1, before, later, rfl, clean.2, hfault⟩
  · intro h
    rcases h with hnow | ⟨hnone, before, later, hops, clean, hfault⟩
    · obtain ⟨hop, hfault⟩ := fault?_eq_some.1 hnow
      subst hop
      exact ⟨[], ops, rfl, m.not_faults_nil, hfault⟩
    · subst hops
      refine ⟨op :: before, later, rfl, ?_, hfault⟩
      rw [faults_cons, not_or, not_stumbles_iff]
      exact ⟨hnone, clean⟩

/-- An attempt fails with the first fault. -/
theorem attempt_eq_error : m.attempt ops = .error fault ↔ m.FirstFault ops fault := by
  induction ops generalizing m with
  | nil =>
    constructor
    · intro h
      cases h
    · intro h
      exact absurd h (not_firstFault_nil fault)
  | cons op ops ih =>
    rw [attempt, firstFault_cons]
    cases m.fault? op with
    | none => simp [ih]
    | some fault' => simp

/-- Without a fault an attempt does all the operations. -/
theorem attempt_eq_ok {m' : Machine} :
    m.attempt ops = .ok m' ↔ ¬ m.Faults ops ∧ m.after ops = m' := by
  induction ops generalizing m with
  | nil => simp [attempt, after, m.not_faults_nil]
  | cons op ops ih =>
    rw [attempt, faults_cons, not_or, not_stumbles_iff]
    cases m.fault? op with
    | none => simp [ih, after]
    | some fault' => simp

theorem attempt_of_ok {i : Instruction} (h : m.cycle.result = .ok i) (ops : List Operation) :
    m.attempt (.cycle :: ops) = m.cycle.state.attempt ops := by
  simp only [attempt, fault?, h]
  rfl

theorem attempt_of_error (h : m.cycle.result = .error fault) (ops : List Operation) :
    m.attempt (.cycle :: ops) = .error fault := by
  simp only [attempt, fault?, h]

theorem attempt_append (before later : List Operation) (m : Machine) :
    m.attempt (before ++ later) = (m.attempt before).bind fun m => m.attempt later := by
  induction before generalizing m with
  | nil => rfl
  | cons op before ih =>
    rw [List.cons_append, attempt, attempt]
    cases m.fault? op with
    | none => exact ih (m.perform op)
    | some fault => rfl

/-- A machine that jumps to where it stands, with its timers run out, stays as it is. -/
theorem attempt_of_idle {target : Address} (hnext : m.next? = some (.jump target))
    (hpc : m.cpu.pc = target.val.toUInt16) (hdelay : m.cpu.delay = 0) (hsound : m.cpu.sound = 0)
    {ops : List Operation} (h : ∀ op ∈ ops, op = .cycle ∨ op = .tick) : m.attempt ops = .ok m := by
  have hresult : m.cycle.result = .ok (.jump target) := by
    rw [cycle_of_next? hnext]
    rfl
  have hcycle : m.cycle.state = m := by
    rw [cycle_of_next? hnext, Outcome.state_map]
    show { m with cpu := { m.cpu with pc := target.val.toUInt16 } } = m
    rw [← hpc]
  have htick : m.perform .tick = m := by
    have hcpu : m.cpu.tick = { m.cpu with delay := m.cpu.delay, sound := m.cpu.sound } := by
      rw [Cpu.tick, hdelay, hsound, if_pos rfl]
    show { m with cpu := m.cpu.tick } = m
    rw [hcpu]
  induction ops with
  | nil => rfl
  | cons op ops ih =>
    have hrest := ih fun op hop => h op (List.mem_cons_of_mem _ hop)
    rcases h op List.mem_cons_self with hop | hop
    · rw [hop, attempt_of_ok hresult, hcycle]
      exact hrest
    · subst hop
      show (m.perform .tick).attempt ops = _
      rw [htick]
      exact hrest

end Machine

namespace Session

variable {s : Session}

/-- A frame does its cycles and a tick to the machine, or it fails with their first fault. -/
theorem frame_attempt (live : s.halted = false) (n : Nat) :
    (∃ m redraw, s.machine.attempt (List.replicate n .cycle ++ [.tick]) = .ok m ∧
      (s.frame n).result = .ok redraw ∧ (s.frame n).state = { s with machine := m }) ∨
    ∃ fault, s.machine.attempt (List.replicate n .cycle ++ [.tick]) = .error fault ∧
      (s.frame n).result = .error fault := by
  induction n generalizing s with
  | zero => exact .inl ⟨_, false, rfl, rfl, rfl⟩
  | succ n ih =>
    rw [List.replicate_succ, List.cons_append]
    cases h : s.machine.cycle.result with
    | ok i =>
      have hcycle := cycle_of_ok live h
      have hok : s.cycle.result = .ok i := by rw [hcycle]
      rw [frame_of_ok hok, Machine.attempt_of_ok h, hcycle]
      rcases ih (s := { s with machine := s.machine.cycle.state }) live with
        ⟨m, redraw, hm, hresult, hstate⟩ | ⟨fault, hm, hresult⟩
      · refine .inl ⟨m, i.isDisplay || redraw, hm, ?_, hstate⟩
        exact Outcome.result_map_eq_ok.2 ⟨redraw, hresult, rfl⟩
      · exact .inr ⟨fault, hm, Outcome.result_map_eq_error.2 hresult⟩
    | error fault =>
      have herror : s.cycle.result = .error fault := by rw [result_cycle live, h]
      rw [frame_of_error herror]
      exact .inr ⟨fault, Machine.attempt_of_error h _, rfl⟩

end Session

end ChipEight
