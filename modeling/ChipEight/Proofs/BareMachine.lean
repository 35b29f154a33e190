import ChipEight.Proofs.Disguise

namespace ChipEight

namespace Machine

/-- What a caller can do to a machine that no session guards. -/
inductive Operation
  | load (program : List UInt8)
  | cycle
  | tick
  | setKey (key : Option Key)
  | poll (down : List Key)
  deriving DecidableEq

/-- A program that does not fit changes nothing. -/
def load (m : Machine) (program : List UInt8) : Outcome Machine Unit :=
  match m.memory.load program with
  | .ok memory => .done { m with memory := memory } ()
  | .error fault => .fail m fault []

/-- What is left after an operation, whether or not it succeeds. -/
def perform (op : Operation) (m : Machine) : Machine :=
  match op with
  | .load program => (m.load program).state
  | .cycle => m.cycle.state
  | .tick => { m with cpu := m.cpu.tick }
  | .setKey key => { m with cpu := m.cpu.setKey key }
  | .poll down => { m with cpu := m.cpu.poll down }

/-- A machine runs on after a fault. -/
def after (ops : List Operation) (m : Machine) : Machine := ops.foldl (fun m op => m.perform op) m

/-- The operation is a cycle that ends in a fault. -/
def Stumbles (m : Machine) (op : Operation) : Prop :=
  op = .cycle ∧ ∃ fault, m.cycle.result = .error fault

def Faults (m : Machine) (ops : List Operation) : Prop :=
  ∃ before later, ops = before ++ .cycle :: later ∧
    ∃ fault, (m.after before).cycle.result = .error fault

theorem state_load (m : Machine) (program : List UInt8) :
    (m.load program).state = { m with memory := (m.load program).state.memory } := by
  unfold load
  split <;> rfl

theorem not_faults_nil (m : Machine) : ¬ m.Faults [] := by
  intro h
  obtain ⟨before, later, hops, -⟩ := h
  cases before <;> cases hops

theorem faults_cons (m : Machine) (op : Operation) (ops : List Operation) :
    m.Faults (op :: ops) ↔ m.Stumbles op ∨ (m.perform op).Faults ops := by
  constructor
  · intro h
    obtain ⟨before, later, hops, hfault⟩ := h
    cases before with
    | nil =>
      cases hops
      exact .inl ⟨rfl, hfault⟩
    | cons first before =>
      cases hops
      exact .inr ⟨before, later, rfl, hfault⟩
  · intro h
    rcases h with ⟨hop, hfault⟩ | ⟨before, later, hops, hfault⟩
    · subst hop
      exact ⟨[], ops, rfl, hfault⟩
    · subst hops
      exact ⟨op :: before, later, rfl, hfault⟩

/-- The machine without its logger. Records apart, machines that agree so far do the same. -/
def silent (m : Machine) : Machine := { m with cpu := { m.cpu with logger := none } }

theorem silent_cycle (m : Machine) :
    m.silent.cycle.result = m.cycle.result ∧ m.silent.cycle.state = m.cycle.state.silent := by
  let quiet (h : Cpu.Hidden) : Cpu.Hidden := { h with logger := none }
  have hsuits (i : Instruction) : (quiet m.cpu.hidden).Suits m.cpu i := m.cpu.suits_hidden i
  obtain ⟨hresult, hstate⟩ := disguise_cycle (quiet m.cpu.hidden) fun i _ => hsuits i
  have hafter : (quiet m.cpu.hidden).after m.cycle.result = quiet m.cycle.state.cpu.hidden := by
    rw [hidden_cycle]
    exact Cpu.Hidden.after_logger _ none _
  rw [hafter] at hstate
  exact ⟨hresult, hstate⟩

theorem silent_load (m : Machine) (program : List UInt8) :
    (m.silent.load program).result = (m.load program).result ∧
      (m.silent.load program).state = (m.load program).state.silent := by
  have hload : m.silent.memory.load program = m.memory.load program := rfl
  simp only [load, hload]
  split <;> exact ⟨rfl, rfl⟩

theorem silent_perform (m : Machine) (op : Operation) :
    m.silent.perform op = (m.perform op).silent := by
  cases op with
  | load program => exact (silent_load m program).2
  | cycle => exact (silent_cycle m).2
  | _ => rfl

/-- Alike but for their loggers. -/
def Alike (m n : Machine) : Prop := m.silent = n.silent

theorem Alike.cycle {m n : Machine} (h : m.Alike n) :
    m.cycle.result = n.cycle.result ∧ m.cycle.state.Alike n.cycle.state := by
  obtain ⟨hm, hm'⟩ := silent_cycle m
  obtain ⟨hn, hn'⟩ := silent_cycle n
  rw [h] at hm hm'
  exact ⟨hm.symm.trans hn, hm'.symm.trans hn'⟩

theorem Alike.load {m n : Machine} (h : m.Alike n) (program : List UInt8) :
    (m.load program).result = (n.load program).result := by
  have hm := (silent_load m program).1
  rw [h] at hm
  exact hm.symm.trans (silent_load n program).1

theorem Alike.perform {m n : Machine} (h : m.Alike n) (op : Operation) :
    (m.perform op).Alike (n.perform op) := by
  have hm := silent_perform m op
  rw [h] at hm
  exact hm.symm.trans (silent_perform n op)

theorem Alike.stumbles {m n : Machine} (h : m.Alike n) (op : Operation) :
    m.Stumbles op ↔ n.Stumbles op := by
  rw [Stumbles, Stumbles, h.cycle.1]

end Machine

end ChipEight
