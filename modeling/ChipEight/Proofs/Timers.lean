import ChipEight.Proofs.Effects
import ChipEight.Proofs.Latest
import ChipEight.Proofs.Runs

namespace ChipEight

inductive Timer
  | delay
  | sound
  deriving DecidableEq

namespace Timer

/-- What can happen to the timers. -/
inductive Event
  | set (k : Timer) (value : UInt8)
  /-- Both timers count down. -/
  | tick
  deriving DecidableEq

def Event.Sets (k : Timer) (e : Event) : Prop := ∃ value, e = .set k value

/-- What an event makes of a timer that shows a value. -/
def react (k : Timer) (shown : UInt8) : Event → UInt8
  | .set j value => if j = k then value else shown
  | .tick => if shown = 0 then 0 else shown - 1

/-- A timer shows what it was last set to less the ticks since then, down to zero; one that has not
been set shows zero. -/
structure Follows (k : Timer) (events : List Event) (shown : UInt8) : Prop where
  since : ∀ value later, Latest (Event.Sets k) events (.set k value) later →
    shown.toNat = value.toNat - later.count .tick
  unset : (∀ value, .set k value ∉ events) → shown = 0

variable {k : Timer} {events : List Event} {shown : UInt8}

theorem toNat_react_tick (k : Timer) (shown : UInt8) :
    (k.react shown .tick).toNat = shown.toNat - 1 := by
  rw [react]
  split
  · rename_i hzero
    rw [hzero]
    rfl
  · rename_i hne
    have hpos : 1 ≤ shown.toNat := Nat.pos_of_ne_zero fun h => hne (UInt8.toNat_inj.1 h)
    exact UInt8.toNat_sub_of_le shown 1 hpos

theorem follows_nil (k : Timer) : k.Follows [] 0 where
  since _ _ h := absurd h not_latest_nil
  unset _ := rfl

theorem Follows.react (h : k.Follows events shown) (e : Event) :
    k.Follows (events ++ [e]) (k.react shown e) := by
  constructor
  case since =>
    intro value later hlatest
    rcases latest_concat.1 hlatest with ⟨-, he, rfl⟩ | ⟨hkeeps, rest, rfl, hrest⟩
    · rw [← he, Timer.react, if_pos rfl]
      rfl
    · have hshown := h.since value rest hrest
      rw [List.count_append, List.count_singleton]
      cases e with
      | set j other =>
        have hj : j ≠ k := fun hj => hkeeps ⟨other, congrArg (Event.set · other) hj⟩
        rw [Timer.react, if_neg hj]
        exact hshown
      | tick =>
        rw [toNat_react_tick, hshown]
        exact Nat.sub_sub _ _ 1
  case unset =>
    intro hnone
    have hbefore : ∀ value, .set k value ∉ events := fun value hv =>
      hnone value (List.mem_append_left _ hv)
    rw [h.unset hbefore]
    cases e with
    | set j other =>
      have hj : j ≠ k := by
        rintro rfl
        exact hnone other (List.mem_append_right _ (List.mem_singleton_self _))
      rw [Timer.react, if_neg hj]
    | tick => rfl

theorem Follows.replay (h : k.Follows events shown) (more : List Event) :
    k.Follows (events ++ more) (more.foldl k.react shown) := by
  induction more generalizing events shown with
  | nil =>
    rw [List.append_nil]
    exact h
  | cons e more ih =>
    rw [List.append_cons]
    exact ih (h.react e)

end Timer

namespace Cpu

def timer (c : Cpu) : Timer → UInt8
  | .delay => c.delay
  | .sound => c.sound

/-- What happens to the timers in a cycle with an answer. -/
def times (c : Cpu) : Except Fault Instruction → List Timer.Event
  | .ok (.setDelay x) => [.set .delay (c.get x)]
  | .ok (.setSound x) => [.set .sound (c.get x)]
  | _ => []

theorem count_tick_times (c : Cpu) (answer : Except Fault Instruction) :
    (c.times answer).count .tick = 0 := by
  unfold times
  split <;> rfl

theorem timer_tick (c : Cpu) (k : Timer) : c.tick.timer k = k.react (c.timer k) .tick := by
  cases k <;> rfl

end Cpu

namespace Machine

theorem timer_execute (m : Machine) (i : Instruction) (k : Timer) :
    (m.execute i).state.cpu.timer k = (m.cpu.times (.ok i)).foldl k.react (m.cpu.timer k) := by
  cases i with
  | setDelay x => cases k <;> rfl
  | setSound x => cases k <;> rfl
  | _ =>
    cases k with
    | delay => exact (effect_execute m _).delay nofun
    | sound => exact (effect_execute m _).sound nofun

/-- The instructions that set timers do not fail. -/
theorem times_of_error {m : Machine} {i : Instruction} {fault : Fault}
    (h : (m.execute i).result = .error fault) : m.cpu.times (.ok i) = [] := by
  cases i with
  | setDelay | setSound => cases h
  | _ => rfl

theorem timer_cycle (m : Machine) (k : Timer) :
    m.cycle.state.cpu.timer k = (m.cpu.times m.cycle.result).foldl k.react (m.cpu.timer k) := by
  have hfetched : m.fetched.cpu.timer k = m.cpu.timer k := by cases k <;> rfl
  have htimes (i : Instruction) : m.fetched.cpu.times (.ok i) = m.cpu.times (.ok i) := by
    cases i <;> rfl
  rcases cycle_cases m with ⟨fault, -, hc⟩ | ⟨w, -, -, hc⟩ | ⟨w, i, -, -, hc⟩
  · rw [hc]
    rfl
  · rw [hc]
    exact hfetched
  · rw [hc, Outcome.state_map, timer_execute, hfetched, htimes]
    rcases Outcome.result_map_cases (fun _ => i) (m.fetched.execute i) with
      ⟨done, -, hok⟩ | ⟨fault, hr, herror⟩
    · rw [hok]
    · rw [herror, ← htimes, times_of_error hr]
      rfl

end Machine

namespace Session

variable {s : Session}

/-- What a step does to the timers. -/
def clock (s : Session) : Machine.Operation → List Timer.Event
  | .tick => [.tick]
  | .cycle => s.machine.cpu.times s.cycle.result
  | _ => []

/-- What steps do to the timers, oldest first. -/
def clocked (ops : List Machine.Operation) (s : Session) : List Timer.Event := s.collect clock ops

/-- The operation ends in a tick. -/
def Ticks (s : Session) : Operation → Prop
  | .tick => True
  | .frame n => ∃ redraw, (s.frame n).result = .ok redraw
  | _ => False

theorem timer_perform (s : Session) (op : Machine.Operation) (k : Timer) :
    (s.perform op.guarded).state.machine.cpu.timer k =
      (s.clock op).foldl k.react (s.machine.cpu.timer k) := by
  cases op with
  | load program =>
    show (s.load program).state.machine.cpu.timer k = _
    rw [(machine_load s program).2, Machine.state_load]
    rfl
  | cycle =>
    show s.cycle.state.machine.cpu.timer k = (s.machine.cpu.times s.cycle.result).foldl _ _
    cases hh : s.halted with
    | true =>
      rw [cycle_of_halted hh]
      rfl
    | false =>
      rw [machine_cycle hh, result_cycle hh]
      exact s.machine.timer_cycle k
  | tick => exact s.machine.cpu.timer_tick k
  | setKey key => cases k <;> rfl
  | poll down => cases k <;> rfl

theorem follows_executed (config : Config) (entropy : Random.CipherKey)
    (logger : Option Log.Logger) (ops : List Machine.Operation) (k : Timer) :
    let s := start config entropy logger
    k.Follows (s.clocked ops) ((s.follow ops).machine.cpu.timer k) := by
  intro s
  have hstart : k.Follows [] (s.machine.cpu.timer k) := by
    cases k <;> exact Timer.follows_nil _
  apply collect_induction (P := fun past t => k.Follows past (t.machine.cpu.timer k)) hstart
  intro past t op h
  rw [timer_perform]
  exact h.replay _

theorem ticks_frame_succ {i : Instruction} (h : s.cycle.result = .ok i) (n : Nat) :
    s.Ticks (.frame (n + 1)) ↔ s.cycle.state.Ticks (.frame n) := by
  simp only [Ticks, frame_of_ok h]
  constructor
  · rintro ⟨redraw, hr⟩
    obtain ⟨b, hb, -⟩ := Outcome.result_map_eq_ok.1 hr
    exact ⟨b, hb⟩
  · rintro ⟨b, hb⟩
    exact ⟨i.isDisplay || b, Outcome.result_map_eq_ok.2 ⟨b, hb, rfl⟩⟩

theorem count_tick_unrollFrame (n : Nat) (s : Session) :
    (s.Ticks (.frame n) → (unrollFrame n s).count .tick = 1) ∧
      (¬ s.Ticks (.frame n) → (unrollFrame n s).count .tick = 0) := by
  induction n generalizing s with
  | zero => exact ⟨fun _ => rfl, fun h => absurd ⟨false, rfl⟩ h⟩
  | succ n ih =>
    cases hc : s.cycle.result with
    | ok i =>
      rw [ticks_frame_succ hc, unrollFrame, hc]
      exact ih s.cycle.state
    | error fault =>
      have hnot : ¬ s.Ticks (.frame (n + 1)) := by
        rintro ⟨redraw, h⟩
        rw [frame_of_error hc] at h
        cases h
      rw [unrollFrame, hc]
      exact ⟨fun h => absurd h hnot, fun _ => rfl⟩

theorem count_tick_clock (s : Session) (op : Machine.Operation) :
    (s.clock op).count .tick = [op].count .tick := by
  cases op with
  | cycle => exact s.machine.cpu.count_tick_times s.cycle.result
  | tick => rfl
  | load | setKey | poll => rfl

theorem count_tick_clocked (ops : List Machine.Operation) (s : Session) :
    (s.clocked ops).count .tick = ops.count .tick := by
  induction ops generalizing s with
  | nil => rfl
  | cons op ops ih =>
    show (s.clock op ++ (s.perform op.guarded).state.clocked ops).count .tick =
      ([op] ++ ops).count .tick
    rw [List.count_append, List.count_append, count_tick_clock, ih]

theorem count_tick_steps (s : Session) (op : Operation) :
    (s.Ticks op → (s.clocked (s.steps op)).count .tick = 1) ∧
      (¬ s.Ticks op → (s.clocked (s.steps op)).count .tick = 0) := by
  rw [count_tick_clocked]
  cases op with
  | frame n => exact count_tick_unrollFrame n s
  | tick => exact ⟨fun _ => rfl, fun h => absurd trivial h⟩
  | load | cycle | setKey | poll => exact ⟨False.elim, fun _ => rfl⟩

/-- A halted session still ticks where it is asked to run nothing. -/
theorem perform_of_ticks (h : s.halted = true) {op : Operation} (hop : s.Ticks op) :
    (s.perform op).state = s.tick := by
  cases op with
  | tick => rfl
  | frame n =>
    cases n with
    | zero => rfl
    | succ n =>
      obtain ⟨redraw, hr⟩ := hop
      rw [frame_of_halted h] at hr
      cases hr
  | load | cycle | setKey | poll => exact False.elim hop

theorem get_of_readDelay {x : Register} (h : s.cycle.result = .ok (.readDelay x)) :
    s.cycle.state.machine.cpu.get x = s.machine.cpu.delay := by
  obtain ⟨-, -, hstate⟩ := cycle_ok h
  rw [hstate]
  show (s.machine.fetched.cpu.set x s.machine.cpu.delay).get x = _
  rw [Cpu.get_set, if_pos rfl]

/-- What the timers of a session show after what has happened to them. -/
structure HoldsTimers (s : Session) (past : List Timer.Event) : Prop where
  timers : ∀ k : Timer, k.Follows past (s.machine.cpu.timer k)
  audible : s.soundActive = true ↔ s.machine.cpu.timer .sound ≠ 0
  read : ∀ x, s.cycle.result = .ok (.readDelay x) →
    s.cycle.state.machine.cpu.get x = s.machine.cpu.timer .delay
  halted : s.halted = true → ∀ op, s.Ticks op → ∀ k,
    ((s.perform op).state.machine.cpu.timer k).toNat = (s.machine.cpu.timer k).toNat - 1

theorem holdsTimers_of_follows {past : List Timer.Event}
    (h : ∀ k : Timer, k.Follows past (s.machine.cpu.timer k)) : s.HoldsTimers past where
  timers := h
  audible := by
    show decide (0 < s.machine.cpu.sound) = true ↔ s.machine.cpu.sound ≠ 0
    rw [decide_eq_true_iff, UInt8.pos_iff_ne_zero]
  read x := get_of_readDelay
  halted hh op hop k := by
    rw [perform_of_ticks hh hop]
    exact (congrArg UInt8.toNat (s.machine.cpu.timer_tick k)).trans (k.toNat_react_tick _)

/-- At every point of every run, inside of frames too, each timer shows what the latest instruction
for it has set less the ticks since then. A tick comes from a caller or from the end of a frame that
succeeds. -/
theorem timers_count_down (config : Config) (entropy : Random.CipherKey)
    (logger : Option Log.Logger) (ops : List Operation) :
    let s := start config entropy logger
    s.follow (s.unroll ops) = s.after ops ∧
      (∀ (t : Session) op, (t.Ticks op → (t.clocked (t.steps op)).count .tick = 1) ∧
        (¬ t.Ticks op → (t.clocked (t.steps op)).count .tick = 0)) ∧
      ∀ steps, steps <+: s.unroll ops → (s.follow steps).HoldsTimers (s.clocked steps) := by
  intro s
  refine ⟨follow_unroll ops s, count_tick_steps, fun steps _ => ?_⟩
  exact holdsTimers_of_follows (follows_executed config entropy logger steps)

/-- A program that sets the delay timer to five, and one tick. -/
theorem delay_of_ticked_program :
    let program : List UInt8 := [0x60, 0x05, 0xF0, 0x15]
    let s := start {} (Vector.replicate 8 0) none
    let t := s.follow [.load program, .cycle, .cycle, .tick]
    (t.machine.cpu.timer .delay).toNat = 4 := by
  intro program s t
  let loaded := (s.load program).state
  let five : Session := loaded.past (.load .first 5)
  have hload : Memory.initial.load program = .ok loaded.machine.memory := rfl
  have hset : loaded.currentOpcode = .ok 0x6005 := Memory.readWord_load hload 0 rfl rfl
  have hdelay : five.currentOpcode = .ok 0xF015 := Memory.readWord_load hload 2 rfl rfl
  obtain ⟨hfirst, hstate⟩ :
      loaded.cycle.result = .ok (.load .first 5) ∧ loaded.cycle.state = five :=
    cycle_of_word rfl hset rfl rfl
  have hsecond : five.cycle.result = .ok (.setDelay .first) := (cycle_of_word rfl hdelay rfl rfl).1
  have hnothing : loaded.clock .cycle = [] := by
    rw [clock, hfirst]
    rfl
  have hfive : five.clock .cycle = [.set .delay 5] := by
    rw [clock, hsecond]
    show [Timer.Event.set .delay ((loaded.machine.fetched.cpu.set .first 5).get .first)] = _
    rw [Cpu.get_set, if_pos rfl]
  -- These hold of any session, and checking them needs no run of the program.
  have hsteps (s : Session) :
      [.load program, .cycle, .cycle, .tick] <+: s.unroll [.load program, .cycle, .cycle, .tick] :=
    List.prefix_rfl
  have hclocked (s : Session) : s.clocked [.load program, .cycle, .cycle, .tick] =
      (s.load program).state.clock .cycle ++
        ((s.load program).state.cycle.state.clock .cycle ++ [.tick]) := rfl
  have hpast : s.clocked [.load program, .cycle, .cycle, .tick] = [.set .delay 5, .tick] := by
    rw [hclocked]
    show loaded.clock .cycle ++ (loaded.cycle.state.clock .cycle ++ [.tick]) = _
    rw [hstate, hnothing, hfive]
    rfl
  have hholds := (timers_count_down {} (Vector.replicate 8 0) none
    [.load program, .cycle, .cycle, .tick]).2.2 _ (hsteps _)
  have hlatest : Latest (Timer.Event.Sets .delay) [.set .delay 5, .tick] (.set .delay 5) [.tick] :=
    ⟨⟨5, rfl⟩, ⟨[], rfl⟩, by simp [Timer.Event.Sets]⟩
  rw [hpast] at hholds
  rw [(hholds.timers .delay).since 5 [.tick] hlatest]
  rfl

end Session

end ChipEight
