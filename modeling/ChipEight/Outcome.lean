import ChipEight.Fault
import ChipEight.Log

namespace ChipEight

/-- What an operation answers, the state it leaves and the records it emits. A fault leaves a
state too: what was done before the fault stays done. -/
structure Outcome (σ α : Type) where
  result : Except Fault α
  state : σ
  records : List Log.Record

namespace Outcome

variable {σ τ α β : Type}

def done (state : σ) (value : α) : Outcome σ α := ⟨.ok value, state, []⟩

def fail (state : σ) (fault : Fault) (records : List Log.Record) : Outcome σ α :=
  ⟨.error fault, state, records⟩

/-- Succeeds unless a fault is given. -/
def ofFault (state : σ) : Option Fault → Outcome σ Unit
  | none => done state ()
  | some fault => fail state fault []

def map (f : α → β) (o : Outcome σ α) : Outcome σ β := { o with result := o.result.map f }

/-- Looks at the state as a part of a larger one. -/
def within (f : σ → τ) (o : Outcome σ α) : Outcome τ α := { o with state := f o.state }

/-- Goes on from the state of a success; a fault is final. -/
def andThen (o : Outcome σ α) (next : α → σ → Outcome σ β) : Outcome σ β :=
  match o.result with
  | .error fault => ⟨.error fault, o.state, o.records⟩
  | .ok value =>
    let p := next value o.state
    { p with records := o.records ++ p.records }

@[simp]
theorem result_done (s : σ) (value : α) : (done s value).result = .ok value := rfl

@[simp]
theorem state_done (s : σ) (value : α) : (done s value).state = s := rfl

@[simp]
theorem result_fail (s : σ) (fault : Fault) (records : List Log.Record) :
    (fail s fault records : Outcome σ α).result = .error fault := rfl

@[simp]
theorem state_fail (s : σ) (fault : Fault) (records : List Log.Record) :
    (fail s fault records : Outcome σ α).state = s := rfl

@[simp]
theorem state_ofFault (s : σ) (fault : Option Fault) : (ofFault s fault).state = s := by
  cases fault <;> rfl

@[simp]
theorem records_ofFault (s : σ) (fault : Option Fault) : (ofFault s fault).records = [] := by
  cases fault <;> rfl

theorem result_ofFault_eq_error {s : σ} {o : Option Fault} {fault : Fault} :
    (ofFault s o).result = .error fault ↔ o = some fault := by
  cases o <;> simp [ofFault, done, fail]

@[simp]
theorem state_map (f : α → β) (o : Outcome σ α) : (o.map f).state = o.state := rfl

@[simp]
theorem records_map (f : α → β) (o : Outcome σ α) : (o.map f).records = o.records := rfl

theorem result_map_eq_ok {f : α → β} {o : Outcome σ α} {value : β} :
    (o.map f).result = .ok value ↔ ∃ a, o.result = .ok a ∧ f a = value := by
  cases h : o.result <;> simp [map, h, Except.map]

theorem result_map_eq_error {f : α → β} {o : Outcome σ α} {fault : Fault} :
    (o.map f).result = .error fault ↔ o.result = .error fault := by
  cases h : o.result <;> simp [map, h, Except.map]

theorem result_map_cases (f : α → β) (o : Outcome σ α) :
    (∃ a, o.result = .ok a ∧ (o.map f).result = .ok (f a)) ∨
      ∃ fault, o.result = .error fault ∧ (o.map f).result = .error fault := by
  cases h : o.result <;> simp [map, h, Except.map]

theorem isOk_map (f : α → β) (o : Outcome σ α) : (o.map f).result.isOk = o.result.isOk := by
  cases h : o.result <;> simp only [map, h, Except.map] <;> rfl

theorem andThen_ok {o : Outcome σ α} {next : α → σ → Outcome σ β} {value : α}
    (h : o.result = .ok value) :
    o.andThen next =
      { next value o.state with records := o.records ++ (next value o.state).records } := by
  rw [andThen, h]

theorem andThen_error {o : Outcome σ α} {next : α → σ → Outcome σ β} {fault : Fault}
    (h : o.result = .error fault) : o.andThen next = .fail o.state fault o.records := by
  rw [andThen, h]
  rfl

end Outcome

/-- Up to a number of steps in a row, cut off by the first fault. -/
structure Run (σ α : Type) where
  /-- The answer of each successful step, with the state after it. -/
  trail : List (α × σ)
  fault : Option Fault
  state : σ
  records : List Log.Record

/-- Takes `n` steps unless one of them faults. -/
def Run.upTo {σ α : Type} (step : σ → Outcome σ α) : Nat → σ → Run σ α
  | 0, s => ⟨[], none, s, []⟩
  | n + 1, s =>
    let o := step s
    match o.result with
    | .error fault => ⟨[], some fault, o.state, o.records⟩
    | .ok value =>
      let rest := upTo step n o.state
      { rest with trail := (value, o.state) :: rest.trail, records := o.records ++ rest.records }

end ChipEight
