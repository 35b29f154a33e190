import ChipEight.Proofs.Leftovers
import ChipEight.Proofs.Polling
import ChipEight.Proofs.Successors
import ChipEight.Proofs.Timers
import Mathlib.Logic.Function.Iterate

namespace ChipEight

open Instruction

namespace Machine

variable {m : Machine}

/-- Without a key the counter goes back to where it was before the fetch. -/
theorem cycle_of_waiting {x : Register} (hi : m.next? = some (.awaitKey x))
    (hlatch : m.cpu.keypad.latch = none) : m.cycle = .done m (.awaitKey x) := by
  have hfetched : m.fetched.cpu.keypad.latch = none := hlatch
  have horigin : m.fetched.cpu.origin = m.cpu.pc := m.cpu.origin_advance
  rw [cycle_of_next? hi]
  simp only [execute, hfetched, horigin]
  rfl

theorem cycle_of_latched {x : Register} {k : Key} (hi : m.next? = some (.awaitKey x))
    (hlatch : m.cpu.keypad.latch = some k) :
    m.cycle = .done { m with cpu := m.cpu.advance.set x k.toByte } (.awaitKey x) := by
  have hfetched : m.fetched.cpu.keypad.latch = some k := hlatch
  rw [cycle_of_next? hi]
  simp only [execute, hfetched]
  rfl

end Machine

namespace Session

/-- What can go on while a session waits for a key. -/
inductive Pause
  | cycle
  | frame (cycles : Nat)
  | tick

namespace Pause

def operation : Pause → Operation
  | .cycle => .cycle
  | .frame cycles => .frame cycles
  | .tick => .tick

/-- What a session that waits tells its caller. -/
def answer (x : Register) : Pause → Answer
  | .cycle => .executed (.awaitKey x)
  | .frame _ => .redraw false
  | .tick => .done

def ticks : Pause → Bool
  | .cycle => false
  | .frame _ | .tick => true

end Pause

/-- A session that has come to FX0A with this in the latch. -/
structure Awaits (s : Session) (x : Register) (latch : Option Key) : Prop where
  live : s.halted = false
  word : ∃ w, s.currentOpcode = .ok w ∧ (Instruction.awaitKey x).Spells w
  latch : s.machine.cpu.keypad.latch = latch

/-- The operation brings a key into the latch. -/
def Latches (s : Session) (k : Key) : Operation → Prop
  | .setKey key => key = some k
  | .poll down => s.machine.cpu.keypad.LastJoined down k
  | _ => False

/-- Nothing has changed but the timers, which have counted down. -/
structure Rests (s : Session) (ticks : Nat) (t : Session) : Prop where
  timers : ∀ k, (t.machine.cpu.timer k).toNat = (s.machine.cpu.timer k).toNat - ticks
  others : t =
    { s with
      machine :=
        { s.machine with
          cpu :=
            { s.machine.cpu with
              delay := t.machine.cpu.delay
              sound := t.machine.cpu.sound } } }

/-- The number of a key has come into Vx, and the session has moved on. -/
structure Wakes (s : Session) (x : Register) (k : Key) (t : Session) : Prop where
  register : (t.machine.cpu.get x).toNat = k.number.val
  registers : ∀ r, r ≠ x → t.machine.cpu.get r = s.machine.cpu.get r
  pc : t.machine.cpu.pc.toNat = s.machine.cpu.pc.toNat + 2
  latch : t.machine.cpu.keypad.latch = some k
  others : t =
    { s with
      machine :=
        { s.machine with
          cpu :=
            { s.machine.cpu with
              registers := t.machine.cpu.registers
              pc := t.machine.cpu.pc } } }

variable {s : Session} {x : Register} {latch : Option Key} {k : Key}

namespace Awaits

theorem next? (h : s.Awaits x latch) : s.machine.next? = some (.awaitKey x) := by
  obtain ⟨w, hw, hspells⟩ := h.word
  exact Machine.next?_eq_some.2 ⟨w, hw, decode_of_encode_eq trivial (spells_iff.1 hspells)⟩

theorem tick (h : s.Awaits x latch) : s.tick.Awaits x latch := ⟨h.live, h.word, h.latch⟩

theorem iterate_tick (h : s.Awaits x latch) (n : Nat) : (Session.tick^[n] s).Awaits x latch := by
  induction n generalizing s with
  | zero => exact h
  | succ n ih => exact ih h.tick

theorem latched (h : s.Awaits x latch) {op : Operation} (hop : s.Latches k op) :
    (s.perform op).state.Awaits x (some k) := by
  cases op with
  | setKey key => exact ⟨h.live, h.word, hop⟩
  | poll down =>
    have hpolled := s.machine.cpu.keypad.polled_poll down
    obtain ⟨j, hshown, hunique⟩ := hpolled.joined ⟨k, hop.mem, hop.fresh⟩
    rw [← (hunique k).1 hop] at hshown
    exact ⟨h.live, h.word, hshown⟩
  | load | cycle | frame | tick => exact hop.elim

theorem cycle (h : s.Awaits x none) : s.cycle = .done s (.awaitKey x) := by
  have hcycle := Machine.cycle_of_waiting h.next? h.latch
  rw [cycle_of_ok h.live (congrArg Outcome.result hcycle), hcycle]
  rfl

/-- However long a frame is, it comes to a tick. -/
theorem frame (h : s.Awaits x none) (n : Nat) : s.frame n = .done s.tick false := by
  induction n with
  | zero => rfl
  | succ n ih =>
    rw [frame_of_ok (congrArg Outcome.result h.cycle), h.cycle, Outcome.state_done, ih]
    rfl

theorem perform (h : s.Awaits x none) (p : Pause) :
    s.perform p.operation = .done (if p.ticks then s.tick else s) (p.answer x) := by
  cases p with
  | cycle =>
    show s.cycle.map _ = _
    rw [h.cycle]
    rfl
  | frame n =>
    show (s.frame n).map _ = _
    rw [h.frame]
    rfl
  | tick => rfl

/-- A session that waits goes on waiting. -/
theorem pause (h : s.Awaits x none) (p : Pause) :
    (s.perform p.operation).state.Awaits x none := by
  rw [h.perform, Outcome.state_done]
  split
  · exact h.tick
  · exact h

theorem told (h : s.Awaits x none) (ps : List Pause) :
    s.told (ps.map Pause.operation) = ps.map fun p => (.ok (p.answer x), []) := by
  induction ps generalizing s with
  | nil => rfl
  | cons p ps ih =>
    rw [List.map_cons, told_cons, ih (h.pause p), h.perform]
    rfl

theorem after (h : s.Awaits x none) (ps : List Pause) :
    s.after (ps.map Pause.operation) = Session.tick^[ps.countP (·.ticks)] s := by
  induction ps generalizing s with
  | nil => rfl
  | cons p ps ih =>
    rw [List.map_cons, after_cons, ih (h.pause p), h.perform, Outcome.state_done, List.countP_cons]
    cases p.ticks <;> rfl

end Awaits

theorem rests_iterate_tick (n : Nat) (s : Session) : s.Rests n (tick^[n] s) := by
  induction n with
  | zero => exact ⟨fun _ => rfl, rfl⟩
  | succ n ih =>
    rw [Function.iterate_succ_apply']
    constructor
    case timers =>
      intro k
      show ((tick^[n] s).machine.cpu.tick.timer k).toNat = _
      rw [Cpu.timer_tick, Timer.toNat_react_tick, ih.timers]
      exact Nat.sub_sub _ n 1
    case others =>
      exact congrArg Session.tick ih.others

/-- A word that can be fetched is too low for the counter to wrap around behind it. -/
theorem wakes_of_latched (h : s.Awaits x (some k)) :
    s.cycle.result = .ok (.awaitKey x) ∧ s.cycle.records = [] ∧ s.Wakes x k s.cycle.state := by
  obtain ⟨w, hw, -⟩ := h.word
  have hcycle := Machine.cycle_of_latched h.next? h.latch
  rw [cycle_of_ok h.live (congrArg Outcome.result hcycle), hcycle]
  refine ⟨rfl, rfl, ?_⟩
  constructor
  case register =>
    show ((s.machine.cpu.advance.set x k.toByte).get x).toNat = _
    rw [Cpu.get_set, if_pos rfl, Key.toNat_toByte]
  case registers =>
    intro r hr
    exact Cpu.get_set_of_ne _ _ hr
  case pc => exact (Machine.toNat_fetched hw).1
  case latch => exact h.latch
  case others => rfl

/-- While no key is latched, neither cycles nor frames nor ticks get a session past FX0A, and they
leave only the timers changed. The first cycle that finds a key puts its number into Vx and moves
on. -/
theorem waiting_is_stable (h : s.Awaits x none) (ps : List Pause) :
    let t := s.after (ps.map Pause.operation)
    s.told (ps.map Pause.operation) = ps.map (fun p => (.ok (p.answer x), [])) ∧
    s.Rests (ps.countP (·.ticks)) t ∧
    ∀ k op n, t.Latches k op →
      let u := tick^[n] (t.perform op).state
      u.cycle.result = .ok (.awaitKey x) ∧ u.cycle.records = [] ∧ u.Wakes x k u.cycle.state := by
  intro t
  have ht : t = tick^[ps.countP (·.ticks)] s := h.after ps
  refine ⟨h.told ps, ?_, ?_⟩
  · rw [ht]
    exact rests_iterate_tick _ s
  · intro k op n hop
    rw [ht] at hop
    have hlatched := (h.iterate_tick _).latched hop
    rw [← ht] at hlatched
    exact wakes_of_latched (hlatched.iterate_tick n)

/-- A program that waits through a cycle, a frame and a tick, until the keys 1 and C go down. -/
theorem wait_for_two_keys :
    let s := (launch [0xFA, 0x0A] {} (Vector.replicate 8 0) none).state
    let twelve : Key := ⟨nibble 12⟩
    let pauses : List Operation := [.cycle, .frame 9, .tick]
    let u := tick ((s.after pauses).poll [⟨nibble 1⟩, twelve])
    s.told pauses =
        [(.ok (.executed (.awaitKey (nibble 10))), []), (.ok (.redraw false), []), (.ok .done, [])] ∧
      (s.after pauses).machine.cpu.pc = 0x200 ∧ u.cycle.result = .ok (.awaitKey (nibble 10)) ∧
      (u.cycle.state.machine.cpu.get (nibble 10)).toNat = 12 ∧
      u.cycle.state.machine.cpu.keypad.latch = some twelve := by
  intro s twelve pauses u
  have hload : Memory.initial.load [0xFA, 0x0A] = .ok s.machine.memory := rfl
  have hword : s.currentOpcode = .ok 0xFA0A := Memory.readWord_load hload 0 rfl rfl
  have hwaits : s.Awaits (nibble 10) none := ⟨rfl, ⟨0xFA0A, hword, spells_iff.2 rfl⟩, rfl⟩
  obtain ⟨htold, hrests, hwakes⟩ := waiting_is_stable hwaits [.cycle, .frame 9, .tick]
  have hpc : (s.after pauses).machine.cpu.pc = s.machine.cpu.pc :=
    congrArg (·.machine.cpu.pc) hrests.others
  have hkeypad : (s.after pauses).machine.cpu.keypad = .initial :=
    congrArg (·.machine.cpu.keypad) hrests.others
  have hlast : (s.after pauses).Latches twelve (.poll [⟨nibble 1⟩, twelve]) := by
    show (s.after pauses).machine.cpu.keypad.LastJoined _ _
    rw [hkeypad]
    exact ⟨by decide, by decide, by decide⟩
  obtain ⟨hresult, -, hwoken⟩ := hwakes twelve (.poll [⟨nibble 1⟩, twelve]) 1 hlast
  exact ⟨htold, hpc, hresult, hwoken.register, hwoken.latch⟩

end Session

end ChipEight
