import ChipEight.Proofs.Leftovers

namespace ChipEight

namespace Instruction

/-- FX07, FX15 and FX18. -/
def usesTimers : Instruction → Bool
  | .readDelay _ | .setDelay _ | .setSound _ => true
  | _ => false

/-- EX9E, EXA1 and FX0A. -/
def usesLatch : Instruction → Bool
  | .skipIf (.keyDown _) | .skipIf (.keyUp _) | .awaitKey _ => true
  | _ => false

end Instruction

namespace Cpu

/-- What callers do to a processor between cycles. Both timers are treated alike. -/
structure Touch where
  timer : UInt8 → UInt8
  keypad : Keypad → Keypad

namespace Touch

/-- Nothing that the instruction makes use of is changed. -/
structure Spares (f : Touch) (i : Instruction) : Prop where
  timers : i.usesTimers = true → f.timer = id
  latch : i.usesLatch = true → ∀ p, (f.keypad p).latch = p.latch

def tick : Touch where
  timer shown := if shown = 0 then 0 else shown - 1
  keypad := id

def ofKeypad (keypad : Keypad → Keypad) : Touch where
  timer := id
  keypad := keypad

variable {i : Instruction}

theorem spares_tick (h : i.usesTimers = false) : tick.Spares i where
  timers huses := absurd huses (Bool.eq_false_iff.1 h)
  latch _ _ := rfl

theorem spares_ofKeypad (h : i.usesLatch = false) (keypad : Keypad → Keypad) :
    (ofKeypad keypad).Spares i where
  timers _ := rfl
  latch huses := absurd huses (Bool.eq_false_iff.1 h)

end Touch

def touch (f : Touch) (c : Cpu) : Cpu :=
  { c with delay := f.timer c.delay, sound := f.timer c.sound, keypad := f.keypad c.keypad }

theorem sparesRegisters_touch (f : Touch) : SparesRegisters (touch f) where
  index _ := rfl
  get _ _ := rfl
  set _ _ _ := rfl
  setMany _ _ := by simp only [setMany, touch, get]

/-- Tests of registers cannot tell, and tests of the latch can only if it has changed. -/
theorem holds_touch {f : Touch} {test : Condition} (h : f.Spares (.skipIf test)) (c : Cpu) :
    (c.touch f).holds test = c.holds test := by
  cases test with
  | keyDown x | keyUp x =>
    have hlatch : (c.touch f).keypad.latch = c.keypad.latch := h.latch rfl c.keypad
    have hget : (c.touch f).get x = c.get x := rfl
    simp only [holds, showsKey, hlatch, hget]
  | _ => rfl

end Cpu

namespace Machine

variable {f : Cpu.Touch}

theorem execute_touch {i : Instruction} (h : f.Spares i) (m : Machine) :
    (m.mapCpu (Cpu.touch f)).execute i = (m.execute i).within (·.mapCpu (Cpu.touch f)) := by
  cases i with
  | readDelay | setDelay | setSound =>
    obtain ⟨timer, keypad⟩ := f
    cases h.timers rfl
    rfl
  | awaitKey x =>
    have hlatch : (m.mapCpu (Cpu.touch f)).cpu.keypad.latch = m.cpu.keypad.latch :=
      h.latch rfl m.cpu.keypad
    simp only [execute, hlatch]
    cases m.cpu.keypad.latch <;> rfl
  | skipIf test =>
    have hholds : (m.mapCpu (Cpu.touch f)).cpu.holds test = m.cpu.holds test :=
      Cpu.holds_touch h m.cpu
    simp only [execute, hholds]
    cases m.cpu.holds test <;> rfl
  | ret =>
    have hstack : (m.mapCpu (Cpu.touch f)).cpu.stack = m.cpu.stack := rfl
    simp only [execute, hstack]
    cases m.cpu.stack.pop? <;> rfl
  | call target =>
    have hstack : (m.mapCpu (Cpu.touch f)).cpu.stack = m.cpu.stack := rfl
    have hpc : (m.mapCpu (Cpu.touch f)).cpu.pc = m.cpu.pc := rfl
    simp only [execute, hstack, hpc]
    cases m.cpu.stack.push? m.cpu.pc <;> rfl
  | combine op x y => cases op <;> rfl
  | draw x y height => exact draw_mapCpu (Cpu.sparesRegisters_touch f) m x y height
  | storeDecimal x =>
    have hx : (m.mapCpu (Cpu.touch f)).cpu.get x = m.cpu.get x := rfl
    simp only [execute, hx]
    exact store_mapCpu (Cpu.sparesRegisters_touch f) m _
  | dump x => exact store_mapCpu (Cpu.sparesRegisters_touch f) m _
  | restore x => exact restore_mapCpu (Cpu.sparesRegisters_touch f) m x
  | _ => rfl

theorem cycle_touch {m : Machine} (h : ∀ i, m.next? = some i → f.Spares i) :
    (m.mapCpu (Cpu.touch f)).cycle = m.cycle.within (·.mapCpu (Cpu.touch f)) := by
  rcases cycle_cases m with ⟨fault, hw, hc⟩ | ⟨w, hw, hd, hc⟩ | ⟨w, i, hw, hd, hc⟩
  · rw [hc, cycle_of_fault (m := m.mapCpu (Cpu.touch f)) hw]
    rfl
  · rw [hc, cycle_of_unknown (m := m.mapCpu (Cpu.touch f)) hw hd]
    rfl
  · have hfetched : (m.mapCpu (Cpu.touch f)).fetched = m.fetched.mapCpu (Cpu.touch f) := rfl
    have hspares : f.Spares i := h i (next?_eq_some.2 ⟨w, hw, hd⟩)
    rw [hc, cycle_of_decoded (m := m.mapCpu (Cpu.touch f)) hw hd, hfetched, execute_touch hspares]
    rfl

end Machine

namespace Session

/-- The instruction that the next cycle fetches. -/
def fetches (s : Session) : Option Instruction := if s.halted then none else s.machine.next?

/-- None of a number of cycles fetches an instruction that makes use of something. -/
def Avoids (s : Session) (uses : Instruction → Bool) (n : Nat) : Prop :=
  ∀ k < n, ∀ i, (s.cycled k).fetches = some i → uses i = false

/-- Done before a number of cycles it comes to the same as behind them, in what they answer and record
and in the session that is left. -/
structure Commutes (f : Session → Session) (s : Session) (n : Nat) : Prop where
  told : (f s).told (List.replicate n .cycle) = s.told (List.replicate n .cycle)
  state : (f s).cycled n = f (s.cycled n)

def touch (f : Cpu.Touch) (s : Session) : Session :=
  { s with machine := s.machine.mapCpu (Cpu.touch f) }

variable {s : Session} {f : Cpu.Touch} {n : Nat}

theorem fetches_of_live (live : s.halted = false) : s.fetches = s.machine.next? := by
  rw [fetches, live]
  rfl

theorem cycle_touch (h : ∀ i, s.fetches = some i → f.Spares i) :
    (s.touch f).cycle = s.cycle.within (touch f) := by
  cases hh : s.halted with
  | true =>
    have hh' : (s.touch f).halted = true := hh
    rw [cycle_of_halted hh, cycle_of_halted hh']
    rfl
  | false =>
    have hh' : (s.touch f).halted = false := hh
    have hcycle : (s.touch f).machine.cycle = s.machine.cycle.within (·.mapCpu (Cpu.touch f)) := by
      apply Machine.cycle_touch
      rw [fetches_of_live hh] at h
      exact h
    have hresult : (s.touch f).machine.cycle.result = s.machine.cycle.result := by
      rw [hcycle]
      rfl
    cases hr : s.machine.cycle.result with
    | ok i =>
      rw [cycle_of_ok hh hr, cycle_of_ok hh' (hresult.trans hr), hcycle]
      rfl
    | error fault =>
      rw [cycle_of_error hh hr, cycle_of_error hh' (hresult.trans hr), hcycle]
      rfl

theorem commutes_touch (h : ∀ k < n, ∀ i, (s.cycled k).fetches = some i → f.Spares i) :
    s.Commutes (touch f) n := by
  induction n generalizing s with
  | zero => exact ⟨rfl, rfl⟩
  | succ n ih =>
    have hrest : s.cycle.state.Commutes (touch f) n :=
      ih fun k hk => h (k + 1) (Nat.succ_lt_succ hk)
    have hcycle : (s.touch f).cycle = s.cycle.within (touch f) := cycle_touch (h 0 n.succ_pos)
    have hfirst : (s.touch f).perform .cycle = (s.perform .cycle).within (touch f) :=
      congrArg (Outcome.map Answer.executed) hcycle
    constructor
    case told =>
      rw [List.replicate_succ, told_cons, told_cons, hfirst]
      exact congrArg (_ :: ·) hrest.told
    case state =>
      show ((s.touch f).perform .cycle).state.cycled n = _
      rw [hfirst]
      exact hrest.state

/-- Ticks commute with cycles that leave the timers alone, and changes of keys with cycles that do not
look at the latch, faults and refusals included. -/
theorem ticks_and_keys_commute (s : Session) (n : Nat) :
    (s.Avoids Instruction.usesTimers n → s.Commutes tick n) ∧
    (s.Avoids Instruction.usesLatch n →
      (∀ key, s.Commutes (setKey · key) n) ∧ ∀ down, s.Commutes (poll · down) n) := by
  constructor
  · intro h
    exact commutes_touch (f := .tick) fun k hk i hi => Cpu.Touch.spares_tick (h k hk i hi)
  · intro h
    have hkeypad (keypad : Keypad → Keypad) : s.Commutes (touch (.ofKeypad keypad)) n :=
      commutes_touch fun k hk i hi => Cpu.Touch.spares_ofKeypad (h k hk i hi) keypad
    exact ⟨fun key => hkeypad (·.setLatch key), fun down => hkeypad (·.poll down)⟩

/-- A timer that is running, and three cycles: one succeeds, one fails and one is refused. -/
theorem tick_and_key_around_fault :
    let loaded := (launch [0x60, 0xFF, 0x00, 0x00] {} (Vector.replicate 8 0) none).state
    let s := { loaded with machine := loaded.machine.mapCpu ({ · with delay := 5 }) }
    (s.cycled 2).halted = true ∧ s.tick.machine.cpu.delay = 4 ∧ s.Commutes tick 3 ∧
      s.Commutes (setKey · (some ⟨nibble 7⟩)) 3 ∧ s.Commutes (poll · [⟨nibble 1⟩, ⟨nibble 7⟩]) 3 := by
  intro loaded s
  have hload : Memory.initial.load [0x60, 0xFF, 0x00, 0x00] = .ok s.machine.memory := rfl
  let filled : Session := s.past (.load .first 0xFF)
  have hnext : s.machine.next? = some (.load .first 0xFF) :=
    Machine.next?_of_load hload 0 rfl rfl rfl rfl
  have hzero : filled.currentOpcode = .ok 0 := Memory.readWord_load hload 2 rfl rfl
  have hnative : filled.machine.next? = some (.machineCode 0) :=
    Machine.next?_eq_some.2 ⟨0, hzero, rfl⟩
  have hfirst : s.cycle.state = filled := (cycle_of_next? rfl hnext rfl).2
  -- These hold of any session, and checking them needs no run of the program.
  have hzeroth (s : Session) : s.cycled 0 = s := rfl
  have hone (s : Session) : s.cycled 1 = s.cycle.state := rfl
  have htwo (s : Session) : s.cycled 2 = s.cycle.state.cycle.state := rfl
  have hhalted : (s.cycled 2).halted = true := by
    rw [htwo, hfirst, cycle_of_error rfl (Machine.result_cycle_of_zero hzero)]
    rfl
  have htimer : s.tick.machine.cpu.delay = 4 := by
    show (if (5 : UInt8) = 0 then 0 else 5 - 1) = 4
    decide
  have havoids : ∀ k < 3, ∀ i, (s.cycled k).fetches = some i →
      i.usesTimers = false ∧ i.usesLatch = false := by
    intro k hk i hi
    obtain rfl | rfl | rfl : k = 0 ∨ k = 1 ∨ k = 2 := by omega
    · rw [hzeroth, fetches_of_live rfl, hnext] at hi
      cases hi
      exact ⟨rfl, rfl⟩
    · rw [hone, hfirst, fetches_of_live rfl, hnative] at hi
      cases hi
      exact ⟨rfl, rfl⟩
    · rw [fetches, if_pos hhalted] at hi
      cases hi
  obtain ⟨htick, hkeys⟩ := ticks_and_keys_commute s 3
  obtain ⟨hset, hpoll⟩ := hkeys fun k hk i hi => (havoids k hk i hi).2
  exact ⟨hhalted, htimer, htick fun k hk i hi => (havoids k hk i hi).1, hset _, hpoll _⟩

end Session

end ChipEight
