import ChipEight.Ensemble
import ChipEight.Proofs.Bounds
import ChipEight.Proofs.Frames

namespace ChipEight

/-- What callers can do to processors that share one memory and one display, and to these. -/
inductive Ensemble.Operation (n : Nat)
  | cycle (i : Fin n)
  | tick (i : Fin n)
  | setKey (i : Fin n) (key : Option Key)
  | poll (i : Fin n) (down : List Key)
  | load (program : List UInt8)
  | store (address : Nat) (bytes : List UInt8)
  | plot (x : Column) (y : Row) (value : UInt8)
  | clear
  deriving DecidableEq

namespace Ensemble

variable {n : Nat}

/-- What is left after an operation, whether or not it succeeds. -/
def perform (op : Operation n) (e : Ensemble n) : Ensemble n :=
  match op with
  | .cycle i => (e.cycle i).state
  | .tick i => e.modify i Cpu.tick
  | .setKey i key => e.modify i (·.setKey key)
  | .poll i down => e.modify i (·.poll down)
  | .load program => (e.load program).state
  | .store address bytes => (e.store address bytes).state
  | .plot x y value => (e.plot x y value).state
  | .clear => e.clear

def after (ops : List (Operation n)) (e : Ensemble n) : Ensemble n :=
  ops.foldl (fun e op => e.perform op) e

end Ensemble

namespace Checked

def load (memory : Memory) (program : List UInt8) : Option (Except Fault Memory) :=
  if program.length ≤ Memory.maxProgram ∧ Memory.size < Memory.programStart + program.length then
    none
  else some (memory.load program)

def guarded (s : Session) : Option (Outcome Session Instruction) :=
  if s.halted then some (.fail s .halted [])
  else
    (cycle s.machine).map fun o =>
      match o.result with
      | .ok instruction => ⟨.ok instruction, { s with machine := o.state }, o.records⟩
      | .error fault =>
        .fail { s with machine := o.state, halted := true } fault
          (o.records ++ Log.emit s.logger .error "halting" [("error", fault.message)])

def frame : Nat → Session → Option (Outcome Session Bool)
  | 0, s => some (.done s.tick false)
  | n + 1, s =>
    (guarded s).bind fun o =>
      match o.result with
      | .error fault => some (.fail o.state fault o.records)
      | .ok instruction =>
        (frame n o.state).map fun p =>
          { p.map (instruction.isDisplay || ·) with records := o.records ++ p.records }

def perform (op : Session.Operation) (s : Session) : Option (Outcome Session Session.Answer) :=
  match op with
  | .load program =>
    (load s.machine.memory program).map fun _ => (s.load program).map fun _ => .loaded
  | .cycle => (guarded s).map fun o => o.map .executed
  | .frame cycles => (frame cycles s).map fun o => o.map .redraw
  | .tick => some (.done s.tick .done)
  | .setKey key => some (.done (s.setKey key) .done)
  | .poll down => some (.done (s.poll down) .done)

/-- On a shared machine the caller's pixels are on screen by their type. -/
def performShared {n : Nat} (op : Ensemble.Operation n) (e : Ensemble n) : Option (Ensemble n) :=
  match op with
  | .cycle i => (cycle (e.machine i)).map fun o => e.put i o.state
  | .load program => (load e.memory program).map fun _ => (e.load program).state
  | .plot x y value => (plot e.display x y value).map fun drawn => { e with display := drawn.1 }
  | .tick i => some (e.modify i Cpu.tick)
  | .setKey i key => some (e.modify i (·.setKey key))
  | .poll i down => some (e.modify i (·.poll down))
  | .store address bytes => some (e.store address bytes).state
  | .clear => some e.clear

theorem load_eq (memory : Memory) (program : List UInt8) :
    load memory program = some (memory.load program) := by
  have hfits : ¬ (program.length ≤ Memory.maxProgram ∧
      Memory.size < Memory.programStart + program.length) := by
    unfold Memory.maxProgram Memory.size Memory.programStart
    omega
  rw [load, if_neg hfits]

theorem guarded_eq (s : Session) : guarded s = some s.cycle := by
  rw [guarded, cycle_eq, Session.cycle]
  split <;> rfl

theorem frame_eq (n : Nat) (s : Session) : frame n s = some (s.frame n) := by
  induction n generalizing s with
  | zero => rfl
  | succ n ih =>
    rw [frame, guarded_eq, Option.bind_some]
    cases h : s.cycle.result with
    | error fault => rw [Session.frame_of_error h]
    | ok i =>
      rw [Session.frame_of_ok h]
      simp only [ih, Option.map_some]

theorem perform_eq (op : Session.Operation) (s : Session) :
    perform op s = some (s.perform op) := by
  cases op with
  | load program =>
    rw [perform, load_eq]
    rfl
  | cycle =>
    rw [perform, guarded_eq]
    rfl
  | frame cycles =>
    rw [perform, frame_eq]
    rfl
  | _ => rfl

theorem performShared_eq {n : Nat} (op : Ensemble.Operation n) (e : Ensemble n) :
    performShared op e = some (e.perform op) := by
  cases op with
  | cycle i =>
    rw [performShared, cycle_eq]
    rfl
  | load program =>
    rw [performShared, load_eq]
    rfl
  | plot x y value =>
    rw [performShared, plot, dif_pos ⟨x.isLt, y.isLt⟩]
    rfl
  | _ => rfl

end Checked

theorem Cpu.bounded_start (config : Config) (entropy : Random.CipherKey)
    (logger : Option Log.Logger) : (Cpu.start config entropy logger).Bounded where
  pc := by
    have hpc : (Cpu.start config entropy logger).pc = 0x200 := rfl
    rw [hpc]
    decide
  stack := .empty

namespace Session

theorem bounded_cycle (s : Session) (h : s.machine.cpu.Bounded) :
    s.cycle.state.machine.cpu.Bounded := by
  cases hh : s.halted with
  | true =>
    rw [cycle_of_halted hh]
    exact h
  | false =>
    rw [machine_cycle hh]
    exact Machine.bounded_cycle _ h

theorem bounded_frame (n : Nat) (s : Session) (h : s.machine.cpu.Bounded) :
    (s.frame n).state.machine.cpu.Bounded := by
  induction n generalizing s with
  | zero => exact ⟨h.pc, h.stack⟩
  | succ n ih =>
    have hnext := bounded_cycle s h
    cases hc : s.cycle.result with
    | error fault =>
      rw [frame_of_error hc]
      exact hnext
    | ok i =>
      rw [frame_of_ok hc]
      exact ih _ hnext

theorem bounded_perform (op : Operation) (s : Session) (h : s.machine.cpu.Bounded) :
    (s.perform op).state.machine.cpu.Bounded := by
  cases op with
  | load program =>
    simp only [perform, load, Outcome.state_map]
    split <;> exact h
  | cycle => exact bounded_cycle s h
  | frame cycles => exact bounded_frame cycles s h
  | tick | setKey | poll => exact ⟨h.pc, h.stack⟩

theorem bounded_after (ops : List Operation) (s : Session) (h : s.machine.cpu.Bounded) :
    (s.after ops).machine.cpu.Bounded := by
  induction ops generalizing s with
  | nil => exact h
  | cons op ops ih => exact ih _ (bounded_perform op s h)

end Session

namespace Ensemble

variable {n : Nat}

def Bounded (e : Ensemble n) : Prop := ∀ i, (e.machine i).cpu.Bounded

theorem bounded_put {e : Ensemble n} (h : e.Bounded) (i : Fin n) {m : Machine}
    (hm : m.cpu.Bounded) : (e.put i m).Bounded := by
  intro j
  simp only [put, machine, Fin.getElem_fin, Vector.getElem_set]
  split
  · exact hm
  · exact h j

theorem bounded_modify {e : Ensemble n} (h : e.Bounded) (i : Fin n) {f : Cpu → Cpu}
    (hf : (f (e.machine i).cpu).Bounded) : (e.modify i f).Bounded :=
  bounded_put (m := { e.machine i with cpu := f (e.machine i).cpu }) h i hf

theorem bounded_perform (op : Operation n) (e : Ensemble n) (h : e.Bounded) :
    (e.perform op).Bounded := by
  cases op with
  | cycle i => exact bounded_put h i (Machine.bounded_cycle _ (h i))
  | tick i | setKey i key | poll i down => exact bounded_modify h i ⟨(h i).pc, (h i).stack⟩
  | load program =>
    simp only [perform, load]
    split <;> exact h
  | store address bytes =>
    simp only [perform, store, Outcome.state_ofFault]
    exact h
  | plot x y value => exact h
  | clear => exact h

theorem bounded_after (ops : List (Operation n)) (e : Ensemble n) (h : e.Bounded) :
    (e.after ops).Bounded := by
  induction ops generalizing e with
  | nil => exact h
  | cons op ops ih => exact ih _ (bounded_perform op e h)

theorem bounded_start (configs : Vector Config n) (entropy : Vector Random.CipherKey n)
    (logger : Option Log.Logger) : (start configs entropy logger).Bounded := by
  intro i
  simp only [start, machine, Fin.getElem_fin, Vector.getElem_zipWith]
  exact Cpu.bounded_start _ _ _

end Ensemble

/-- Whatever is done to a session, or to processors on one memory and one display, the bounds hold
and nothing that is done next goes out of range. -/
theorem bounded_and_checked :
    (∀ config entropy logger (ops : List Session.Operation),
      let s := (Session.start config entropy logger).after ops
      s.machine.Bounded ∧ ∀ op, Checked.perform op s = some (s.perform op)) ∧
    (∀ n configs entropy logger (ops : List (Ensemble.Operation n)),
      let e := (Ensemble.start configs entropy logger).after ops
      (∀ i, (e.machine i).Bounded ∧ Checked.cycle (e.machine i) = some (e.machine i).cycle) ∧
        ∀ op, Checked.performShared op e = some (e.perform op)) := by
  constructor
  · intro config entropy logger ops s
    have hs : s.machine.cpu.Bounded := Session.bounded_after ops _ (Cpu.bounded_start _ _ _)
    exact ⟨Machine.bounded_of_cpu hs, fun op => Checked.perform_eq op s⟩
  · intro n configs entropy logger ops e
    have he : e.Bounded := Ensemble.bounded_after ops _ (Ensemble.bounded_start _ _ _)
    refine ⟨fun i => ⟨Machine.bounded_of_cpu (he i), Checked.cycle_eq _⟩, fun op => ?_⟩
    exact Checked.performShared_eq op e

end ChipEight
