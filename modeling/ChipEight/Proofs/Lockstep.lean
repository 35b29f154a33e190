import ChipEight.Proofs.Effects
import ChipEight.Proofs.Runs

namespace ChipEight

/-- Executing the instruction does not tell two configurations apart. -/
def Config.Hides (c d : Config) (cpu : Cpu) : Instruction → Prop
  | .random _ mask => mask = 0 ∨ c.seed = d.seed ∧ c.seed.isSome = true
  | .combine op x y => op.isShift = true → cpu.get x = cpu.get y ∨ c.shiftInPlace = d.shiftInPlace
  | _ => True

/-- What a caller sees of a session. -/
structure View where
  snapshot : Snapshot
  memory : Memory
  display : Display
  halted : Bool
  soundActive : Bool
  deriving DecidableEq

namespace Machine

/-- Machines of two configurations that differ in nothing but their hidden parts. Where both
configurations have the same seed they are also at the same place of the same stream. -/
structure InStep (c d : Config) (m n : Machine) : Prop where
  disguised : n = m.disguise n.cpu.hidden
  shift : m.cpu.shiftInPlace = c.shiftInPlace
  shift' : n.cpu.shiftInPlace = d.shiftInPlace
  random : c.seed = d.seed → c.seed.isSome = true → n.cpu.random = m.cpu.random

namespace InStep

variable {c d : Config} {m n : Machine}

theorem suits (h : InStep c d m n) {i : Instruction} (hi : c.Hides d m.cpu i) :
    n.cpu.hidden.Suits m.cpu i := by
  cases i with
  | random x mask =>
    show n.cpu.random.next.1 &&& mask = m.cpu.random.next.1 &&& mask
    rcases hi with hzero | ⟨hseed, hsome⟩
    · rw [hzero, UInt8.and_zero, UInt8.and_zero]
    · rw [h.random hseed hsome]
  | combine op x y =>
    intro hshift
    refine (hi hshift).imp_right fun hflag => ?_
    exact h.shift'.trans (hflag.symm.trans h.shift.symm)
  | _ => trivial

theorem cycle (h : InStep c d m n) (hi : ∀ i, m.cycle.result = .ok i → c.Hides d m.cpu i) :
    n.cycle.result = m.cycle.result ∧ InStep c d m.cycle.state n.cycle.state := by
  obtain ⟨hresult, hstate⟩ := disguise_cycle n.cpu.hidden fun i hr => h.suits (hi i hr)
  rw [← h.disguised] at hresult hstate
  have hm := hidden_cycle m
  have hn := hidden_cycle n
  rw [hresult] at hn
  refine ⟨hresult, ?_, ?_, ?_, ?_⟩
  · rw [hn]
    exact hstate
  · exact (congrArg (·.shiftInPlace) hm).trans ((Cpu.Hidden.shiftInPlace_after _ _).trans h.shift)
  · exact (congrArg (·.shiftInPlace) hn).trans ((Cpu.Hidden.shiftInPlace_after _ _).trans h.shift')
  · intro hseed hsome
    have hsame : n.cpu.hidden.random = m.cpu.hidden.random := h.random hseed hsome
    exact (congrArg (·.random) hn).trans
      ((Cpu.Hidden.random_after hsame _).trans (congrArg (·.random) hm).symm)

/-- What a caller does to a machine does not depend on its hidden parts. -/
theorem map (h : InStep c d m n) {f : Machine → Machine}
    (hf : ∀ m k, f (m.disguise k) = (f m).disguise k)
    (hidden : ∀ m, (f m).cpu.hidden = m.cpu.hidden) : InStep c d (f m) (f n) where
  disguised := by
    rw [hidden n, ← hf, ← h.disguised]
  shift := (congrArg (·.shiftInPlace) (hidden m)).trans h.shift
  shift' := (congrArg (·.shiftInPlace) (hidden n)).trans h.shift'
  random hseed hsome :=
    (congrArg (·.random) (hidden n)).trans
      ((h.random hseed hsome).trans (congrArg (·.random) (hidden m)).symm)

theorem load (h : InStep c d m n) (program : List UInt8) :
    (n.load program).result = (m.load program).result ∧
      InStep c d (m.load program).state (n.load program).state := by
  have hmemory : n.memory = m.memory := by
    rw [h.disguised]
    rfl
  constructor
  · simp only [Machine.load, hmemory]
    cases m.memory.load program <;> rfl
  · refine h.map (f := fun m => (m.load program).state) (fun m k => ?_) fun m => ?_
    · have hload : (m.disguise k).memory.load program = m.memory.load program := rfl
      simp only [Machine.load, hload]
      split <;> rfl
    · simp only [Machine.load]
      split <;> rfl

end InStep

end Machine

namespace Session

def view (s : Session) : View where
  snapshot := s.snapshot
  memory := s.machine.memory
  display := s.machine.display
  halted := s.halted
  soundActive := s.soundActive

/-- What a caller is told and sees, operation by operation. -/
def seen (ops : List Operation) (s : Session) : List (Except Fault Answer × View) :=
  (s.history ops).map fun (_, o) => (o.result, o.state.view)

/-- No step executes an instruction that tells the configurations apart. -/
def Discreet (c d : Config) : List Machine.Operation → Session → Prop
  | [], _ => True
  | op :: ops, s =>
    (∀ here i, (here, i) ∈ s.executes op → c.Hides d s.machine.cpu i) ∧
      Discreet c d ops (s.perform op.guarded).state

structure InStep (c d : Config) (s t : Session) : Prop where
  machine : s.machine.InStep c d t.machine
  halted : t.halted = s.halted

variable {c d : Config} {s t : Session}

theorem discreet_append (before later : List Machine.Operation) (s : Session) :
    s.Discreet c d (before ++ later) ↔
      s.Discreet c d before ∧ (s.follow before).Discreet c d later := by
  induction before generalizing s with
  | nil => exact ⟨fun h => ⟨trivial, h⟩, And.right⟩
  | cons op ops ih =>
    simp only [List.cons_append, Discreet, ih, and_assoc]
    rfl

theorem InStep.view (h : InStep c d s t) : t.view = s.view := by
  simp only [Session.view, snapshot, soundActive]
  rw [h.halted, h.machine.disguised]
  rfl

theorem InStep.cycle (h : InStep c d s t)
    (hi : ∀ here i, (here, i) ∈ s.executes .cycle → c.Hides d s.machine.cpu i) :
    t.cycle.result = s.cycle.result ∧ InStep c d s.cycle.state t.cycle.state := by
  cases hh : s.halted with
  | true =>
    rw [cycle_of_halted hh, cycle_of_halted (h.halted.trans hh)]
    exact ⟨rfl, h⟩
  | false =>
    have hh' : t.halted = false := h.halted.trans hh
    have hhides (i : Instruction) (hr : s.machine.cycle.result = .ok i) :
        c.Hides d s.machine.cpu i := by
      refine hi s.machine.cpu.pc i ?_
      rw [executes_of_ok ((result_cycle hh).trans hr)]
      exact List.mem_singleton_self _
    obtain ⟨hresult, hstate⟩ := h.machine.cycle hhides
    refine ⟨by rw [result_cycle hh, result_cycle hh', hresult], ?_, ?_⟩
    · rw [machine_cycle hh, machine_cycle hh']
      exact hstate
    · cases hr : s.machine.cycle.result with
      | ok i =>
        rw [cycle_of_ok hh hr, cycle_of_ok hh' (hresult.trans hr)]
        exact h.halted
      | error fault =>
        rw [cycle_of_error hh hr, cycle_of_error hh' (hresult.trans hr)]
        rfl

theorem InStep.tick (h : InStep c d s t) : InStep c d s.tick t.tick :=
  ⟨h.machine.map (f := fun m => { m with cpu := m.cpu.tick }) (fun _ _ => rfl) fun _ => rfl,
    h.halted⟩

theorem InStep.load (h : InStep c d s t) (program : List UInt8) :
    (t.load program).result = (s.load program).result ∧
      InStep c d (s.load program).state (t.load program).state := by
  obtain ⟨hresult, hstate⟩ := h.machine.load program
  obtain ⟨hs, hs'⟩ := machine_load s program
  obtain ⟨ht, ht'⟩ := machine_load t program
  rw [hs, ht, hs', ht']
  exact ⟨hresult, hstate, h.halted⟩

theorem InStep.frame (n : Nat) (h : InStep c d s t) (hd : s.Discreet c d (unrollFrame n s)) :
    (t.frame n).result = (s.frame n).result ∧ InStep c d (s.frame n).state (t.frame n).state := by
  induction n generalizing s t with
  | zero => exact ⟨rfl, h.tick⟩
  | succ n ih =>
    cases hr : s.cycle.result with
    | ok i =>
      rw [unrollFrame, hr] at hd
      obtain ⟨hresult, hstate⟩ := h.cycle hd.1
      obtain ⟨hrest, hstep⟩ := ih hstate hd.2
      rw [frame_of_ok hr, frame_of_ok (hresult.trans hr)]
      exact ⟨congrArg (Except.map (i.isDisplay || ·)) hrest, hstep⟩
    | error fault =>
      rw [unrollFrame, hr] at hd
      obtain ⟨hresult, hstate⟩ := h.cycle hd.1
      rw [frame_of_error hr, frame_of_error (hresult.trans hr)]
      exact ⟨rfl, hstate⟩

theorem InStep.perform (h : InStep c d s t) (op : Operation)
    (hd : s.Discreet c d (s.steps op)) :
    (t.perform op).result = (s.perform op).result ∧
      InStep c d (s.perform op).state (t.perform op).state := by
  cases op with
  | load program =>
    obtain ⟨hresult, hstate⟩ := h.load program
    exact ⟨congrArg (Except.map _) hresult, hstate⟩
  | cycle =>
    obtain ⟨hresult, hstate⟩ := h.cycle hd.1
    exact ⟨congrArg (Except.map _) hresult, hstate⟩
  | frame cycles =>
    obtain ⟨hresult, hstate⟩ := h.frame cycles hd
    exact ⟨congrArg (Except.map _) hresult, hstate⟩
  | tick => exact ⟨rfl, h.tick⟩
  | setKey key =>
    have hmachine := h.machine.map (f := fun m => { m with cpu := m.cpu.setKey key })
      (fun _ _ => rfl) fun _ => rfl
    exact ⟨rfl, hmachine, h.halted⟩
  | poll down =>
    have hmachine := h.machine.map (f := fun m => { m with cpu := m.cpu.poll down })
      (fun _ _ => rfl) fun _ => rfl
    exact ⟨rfl, hmachine, h.halted⟩

theorem InStep.seen (ops : List Operation) (h : InStep c d s t)
    (hd : s.Discreet c d (s.unroll ops)) : t.seen ops = s.seen ops := by
  induction ops generalizing s t with
  | nil => rfl
  | cons op ops ih =>
    rw [unroll, discreet_append, follow_steps] at hd
    obtain ⟨hresult, hstate⟩ := h.perform op hd.1
    have hrest := ih hstate hd.2
    simp only [Session.seen, history, List.map_cons] at hrest ⊢
    rw [hresult, hstate.view, hrest]

theorem inStep_start (c d : Config) (e f : Random.CipherKey) (l m : Option Log.Logger) :
    InStep c d (start c e l) (start d f m) where
  machine :=
    { disguised := rfl
      shift := rfl
      shift' := rfl
      random := by
        intro hseed hsome
        obtain ⟨seed, hc⟩ := Option.isSome_iff_exists.1 hsome
        have hd : d.seed = some seed := hseed.symm.trans hc
        simp only [start, Cpu.start, hc, hd]
        rfl }
  halted := rfl

/-- Programs cannot tell a configuration, a source of random numbers or a logger but by drawing a
random number under a mask that keeps something of it and by shifting where the operands differ. -/
theorem configuration_noninterference (c d : Config) (e f : Random.CipherKey)
    (l m : Option Log.Logger) (program : List UInt8) :
    let o := launch program c e l
    let p := launch program d f m
    p.result = o.result ∧ p.state.view = o.state.view ∧
      ∀ ops, o.state.Discreet c d (o.state.unroll ops) → p.state.seen ops = o.state.seen ops := by
  intro o p
  obtain ⟨hresult, hstate⟩ := (inStep_start c d e f l m).load program
  exact ⟨hresult, hstate.view, fun ops => hstate.seen ops⟩

/-- A program that draws a random number under an empty mask and shifts one zero register into
another. -/
theorem noninterference_of_masked_draw :
    let program : List UInt8 := [0xC0, 0x00, 0x81, 0x26]
    let d : Config := { seed := some 1, shiftInPlace := false }
    let o := launch program {} (Vector.replicate 8 0) none
    let p := launch program d (Vector.replicate 8 1) none
    o.state.Discreet {} d (o.state.unroll [.cycle, .cycle]) ∧
      p.state.seen [.cycle, .cycle] = o.state.seen [.cycle, .cycle] := by
  intro program d o p
  let drawn : Session := o.state.past (.random .first 0)
  have hload : Memory.initial.load program = .ok o.state.machine.memory := rfl
  have hdraw : o.state.currentOpcode = .ok 0xC000 := Memory.readWord_load hload 0 rfl rfl
  have hshift : drawn.currentOpcode = .ok 0x8126 := Memory.readWord_load hload 2 rfl rfl
  obtain ⟨hfirst, hstate⟩ :
      o.state.cycle.result = .ok (.random .first 0) ∧ o.state.cycle.state = drawn :=
    cycle_of_word rfl hdraw rfl rfl
  have hsecond : drawn.cycle.result = .ok (.combine .shiftRight (nibble 1) (nibble 2)) :=
    (cycle_of_word rfl hshift rfl rfl).1
  have hsame : drawn.machine.cpu.get (nibble 1) = drawn.machine.cpu.get (nibble 2) := by
    have hzero (r : Register) (hr : r ≠ .first) : drawn.machine.cpu.get r = 0 := by
      refine (o.state.machine.cpu.get_set_of_ne _ hr).trans ?_
      exact Vector.getElem_replicate r.isLt
    rw [hzero _ (by decide), hzero _ (by decide)]
  -- These hold of any session, and checking them needs no run of the program.
  have hperform (s : Session) :
      (s.perform Machine.Operation.cycle.guarded).state = s.cycle.state := rfl
  have hunroll (s : Session) : s.unroll [.cycle, .cycle] = [.cycle, .cycle] := rfl
  have hd : o.state.Discreet {} d (o.state.unroll [.cycle, .cycle]) := by
    rw [hunroll, Discreet, Discreet, Discreet, hperform, hstate, executes_of_ok hfirst,
      executes_of_ok hsecond]
    refine ⟨fun here i hi => ?_, fun here i hi => ?_, trivial⟩
    · cases List.mem_singleton.1 hi
      exact .inl rfl
    · cases List.mem_singleton.1 hi
      exact fun _ => .inl hsame
  exact ⟨hd, (configuration_noninterference {} d _ _ none none program).2.2 _ hd⟩

end Session

end ChipEight
