import ChipEight.Proofs.Step
import ChipEight.Session.History

namespace ChipEight

namespace Machine

theorem display_execute (m : Machine) {i : Instruction} (hi : i.isDisplay = false) :
    (m.execute i).state.display = m.display := by
  cases i with
  | clearScreen | draw => cases hi
  | ret | call | awaitKey =>
    simp only [execute]
    split <;> rfl
  | storeDecimal | dump => simp only [execute, store, Outcome.state_ofFault]
  | restore => simp only [execute, restore, Outcome.state_ofFault]
  | _ => rfl

theorem display_cycle {m : Machine} {i : Instruction} (h : m.cycle.result = .ok i)
    (hi : i.isDisplay = false) : m.cycle.state.display = m.display := by
  obtain ⟨w, -, -, hc⟩ := cycle_ok h
  rw [hc, Outcome.state_map, display_execute m.fetched hi]
  rfl

end Machine

namespace Session

variable {s : Session} {i : Instruction} {fault : Fault}

theorem live_of_ok (h : s.cycle.result = .ok i) : s.halted = false := by
  apply Bool.eq_false_iff.2
  intro hh
  rw [cycle_of_halted hh] at h
  cases h

theorem display_cycle (h : s.cycle.result = .ok i) (hi : i.isDisplay = false) :
    s.cycle.state.machine.display = s.machine.display := by
  have live := live_of_ok h
  rw [result_cycle live] at h
  rw [machine_cycle live, Machine.display_cycle h hi]

/-- The session after a number of cycles, whether or not they succeed. -/
def cycled (s : Session) (n : Nat) : Session := s.after (List.replicate n .cycle)

/-- The cycle that comes after `k` others. -/
def nth (s : Session) (k : Nat) : Outcome Session Instruction := (s.cycled k).cycle

def recorded (s : Session) (n : Nat) : List Log.Record :=
  (List.range n).flatMap fun k => (s.nth k).records

@[simp]
theorem nth_zero (s : Session) : s.nth 0 = s.cycle := rfl

theorem nth_succ (s : Session) (k : Nat) : s.nth (k + 1) = s.cycle.state.nth k := rfl

@[simp]
theorem recorded_zero (s : Session) : s.recorded 0 = [] := rfl

theorem recorded_succ (s : Session) (n : Nat) :
    s.recorded (n + 1) = s.cycle.records ++ s.cycle.state.recorded n := by
  simp only [recorded, List.range_succ_eq_map, List.flatMap_cons, List.flatMap_map, nth_zero,
    nth_succ]

def Succeeds (s : Session) (n : Nat) : Prop := ∀ k < n, ∃ i, (s.nth k).result = .ok i

/-- One of a number of cycles executes 00E0 or DXYN. -/
def Draws (s : Session) (n : Nat) : Prop :=
  ∃ k < n, ∃ i, (s.nth k).result = .ok i ∧ (i = .clearScreen ∨ ∃ x y height, i = .draw x y height)

theorem succeeds_succ (h : s.cycle.result = .ok i) (n : Nat) :
    s.Succeeds (n + 1) ↔ s.cycle.state.Succeeds n := by
  constructor
  · intro hs k hk
    exact hs (k + 1) (Nat.succ_lt_succ hk)
  · intro hs k hk
    cases k with
    | zero => exact ⟨i, h⟩
    | succ k => exact hs k (Nat.lt_of_succ_lt_succ hk)

theorem draws_succ (h : s.cycle.result = .ok i) (n : Nat) :
    s.Draws (n + 1) ↔ i.isDisplay = true ∨ s.cycle.state.Draws n := by
  rw [Instruction.isDisplay_iff]
  constructor
  · intro hd
    obtain ⟨k, hk, j, hj, hdisplay⟩ := hd
    cases k with
    | zero =>
      cases h.symm.trans hj
      exact .inl hdisplay
    | succ k => exact .inr ⟨k, Nat.lt_of_succ_lt_succ hk, j, hj, hdisplay⟩
  · intro hd
    rcases hd with hdisplay | ⟨k, hk, j, hj, hdisplay⟩
    · exact ⟨0, Nat.succ_pos n, i, h, hdisplay⟩
    · exact ⟨k + 1, Nat.succ_lt_succ hk, j, hj, hdisplay⟩

theorem frame_of_error (h : s.cycle.result = .error fault) (n : Nat) :
    s.frame (n + 1) = .fail s.cycle.state fault s.cycle.records := by
  rw [frame, Outcome.andThen_error h]

theorem frame_of_ok (h : s.cycle.result = .ok i) (n : Nat) :
    s.frame (n + 1) =
      { (s.cycle.state.frame n).map (i.isDisplay || ·) with
        records := s.cycle.records ++ (s.cycle.state.frame n).records } := by
  rw [frame, Outcome.andThen_ok h, Outcome.records_map]

theorem frame_of_succeeds (n : Nat) (s : Session) (h : s.Succeeds n) :
    ∃ b, (s.frame n).result = .ok b ∧ (b = true ↔ s.Draws n) ∧
      (s.frame n).state = (s.cycled n).tick ∧ (s.frame n).records = s.recorded n := by
  induction n generalizing s with
  | zero =>
    refine ⟨false, rfl, ?_, rfl, rfl⟩
    constructor
    · intro hb
      cases hb
    · intro hd
      obtain ⟨k, hk, -⟩ := hd
      cases hk
  | succ n ih =>
    obtain ⟨i, hi⟩ := h 0 (Nat.succ_pos n)
    rw [nth_zero] at hi
    obtain ⟨b, hb, hdraws, hstate, hrecords⟩ := ih _ ((succeeds_succ hi n).1 h)
    rw [frame_of_ok hi]
    refine ⟨i.isDisplay || b, ?_, ?_, hstate, ?_⟩
    · exact Outcome.result_map_eq_ok.2 ⟨b, hb, rfl⟩
    · rw [Bool.or_eq_true, hdraws, draws_succ hi]
    · rw [recorded_succ, hrecords]

theorem frame_of_not_succeeds (n : Nat) (s : Session) (h : ¬ s.Succeeds n) :
    ∃ k < n, ∃ fault, s.Succeeds k ∧ (s.nth k).result = .error fault ∧
      (s.frame n).result = .error fault ∧ (s.frame n).state = (s.nth k).state ∧
      (s.frame n).records = s.recorded (k + 1) := by
  induction n generalizing s with
  | zero => exact absurd (fun k hk => absurd hk (Nat.not_lt_zero k)) h
  | succ n ih =>
    cases hc : s.cycle.result with
    | error fault =>
      rw [frame_of_error hc]
      refine ⟨0, Nat.succ_pos n, fault, fun k hk => absurd hk (Nat.not_lt_zero k), hc, rfl, rfl, ?_⟩
      rw [recorded_succ, recorded_zero, List.append_nil]
      rfl
    | ok i =>
      obtain ⟨k, hk, fault, hs, hnth, hresult, hstate, hrecords⟩ :=
        ih s.cycle.state (mt (succeeds_succ hc n).2 h)
      rw [frame_of_ok hc]
      refine ⟨k + 1, Nat.succ_lt_succ hk, fault, (succeeds_succ hc k).2 hs, hnth, ?_, hstate, ?_⟩
      · exact Outcome.result_map_eq_error.2 hresult
      · rw [recorded_succ, hrecords]

theorem display_frame (n : Nat) (s : Session) (h : (s.frame n).result = .ok false) :
    (s.frame n).state.machine.display = s.machine.display := by
  induction n generalizing s with
  | zero => rfl
  | succ n ih =>
    cases hc : s.cycle.result with
    | error fault =>
      rw [frame_of_error hc] at h
      cases h
    | ok i =>
      rw [frame_of_ok hc] at h ⊢
      obtain ⟨b, hb, hor⟩ := Outcome.result_map_eq_ok.1 h
      obtain ⟨hi, hfalse⟩ := Bool.or_eq_false_iff.1 hor
      subst hfalse
      exact (ih _ hb).trans (display_cycle hc hi)

/-- A frame is its cycles and one tick, or its cycles up to the first that fails. It asks for a
redraw whenever the screen has changed. -/
theorem frame_spec (s : Session) (n : Nat) :
    (s.Succeeds n → ∃ b, (s.frame n).result = .ok b ∧ (b = true ↔ s.Draws n) ∧
      (s.frame n).state = (s.cycled n).tick ∧ (s.frame n).records = s.recorded n) ∧
    (¬ s.Succeeds n → ∃ k < n, ∃ fault, s.Succeeds k ∧ (s.nth k).result = .error fault ∧
      (s.frame n).result = .error fault ∧ (s.frame n).state = (s.nth k).state ∧
      (s.frame n).records = s.recorded (k + 1)) ∧
    ((s.frame n).result = .ok false → ∀ p < 2048,
      (s.frame n).state.machine.display.pixelAt? p = s.machine.display.pixelAt? p) := by
  refine ⟨frame_of_succeeds n s, frame_of_not_succeeds n s, ?_⟩
  intro h p hp
  rw [display_frame n s h]

/-- A program that clears the screen and then runs into a zero word. -/
theorem frame_of_clear_program :
    let s := (launch [0x00, 0xE0] {} (Vector.replicate 8 0) none).state
    (s.frame 1).result = .ok true ∧
      (s.frame 2).result = .error (.unsupportedCall 0 0x202) ∧
      (s.frame 0).state.machine.display.pixelAt? 0 = some false := by
  intro s
  have hload : Memory.initial.load [0x00, 0xE0] = .ok s.machine.memory := rfl
  have hfirst : s.machine.memory.readWord 0x200 = .ok 0x00E0 :=
    @Memory.readWord_of_get? _ _ 0x00 0xE0 (Memory.get?_load hload _) (Memory.get?_load hload _)
  have hsecond : s.machine.memory.readWord 0x202 = .ok 0x0000 :=
    @Memory.readWord_of_get? _ _ 0x00 0x00
      ((Memory.get?_load hload _).trans (Memory.get?_initial (by decide)))
      ((Memory.get?_load hload _).trans (Memory.get?_initial (by decide)))
  have hclear := Machine.cycle_of_decoded (m := s.machine) hfirst rfl
  have hresult : s.machine.cycle.result = .ok .clearScreen := by
    rw [hclear]
    rfl
  have hok : s.cycle.result = .ok .clearScreen := by
    rw [result_cycle rfl, hresult]
  have hstate : s.cycle.state = s.past .clearScreen := by
    rw [cycle_of_ok rfl hresult, hclear]
    rfl
  have hfail : (s.nth 1).result = .error (.unsupportedCall 0 0x202) := by
    rw [nth_succ, nth_zero, hstate, result_cycle rfl, Machine.result_cycle_of_zero hsecond]
    rfl
  have hone : s.Succeeds 1 := by
    intro k hk
    rw [Nat.lt_one_iff.1 hk]
    exact ⟨_, hok⟩
  have htwo : ¬ s.Succeeds 2 := by
    intro h
    obtain ⟨i, hi⟩ := h 1 (by decide)
    cases hfail.symm.trans hi
  refine ⟨?_, ?_, ?_⟩
  · obtain ⟨b, hb, hdraws, -⟩ := (frame_spec s 1).1 hone
    rw [hb, hdraws.2 ⟨0, by decide, _, hok, .inl rfl⟩]
  · obtain ⟨k, hk, fault, -, hnth, hframe, -⟩ := (frame_spec s 2).2.1 htwo
    have hk0 : k ≠ 0 := by
      intro h
      subst h
      cases hok.symm.trans hnth
    have hk1 : k = 1 := by omega
    subst hk1
    cases hnth.symm.trans hfail
    exact hframe
  · rw [(frame_spec s 0).2.2 rfl 0 (by decide)]
    exact (by decide : Display.blank.pixelAt? 0 = some false)

end Session

end ChipEight
