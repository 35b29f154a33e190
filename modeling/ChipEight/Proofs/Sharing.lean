import ChipEight.Proofs.DrawSequences
import ChipEight.Proofs.RandomStream

namespace ChipEight

namespace Instruction

/-- FX33 and FX55. -/
def isStore : Instruction → Bool
  | .storeDecimal _ | .dump _ => true
  | _ => false

/-- DXYN. -/
def isDraw : Instruction → Bool
  | .draw .. => true
  | _ => false

theorem stored_of_not_isStore {i : Instruction} (h : i.isStore = false) : i.stored = 0 := by
  cases i with
  | storeDecimal | dump => cases h
  | _ => rfl

end Instruction

/-- Nothing but VF tells the processors apart. -/
structure Cpu.AgreesButFlag (c d : Cpu) : Prop where
  registers : ∀ r, r ≠ .flag → c.get r = d.get r
  others : c = { d with registers := c.registers }

theorem Cpu.AgreesButFlag.refl (c : Cpu) : c.AgreesButFlag c where
  registers _ _ := rfl
  others := rfl

theorem Cpu.AgreesButFlag.symm {c d : Cpu} (h : c.AgreesButFlag d) : d.AgreesButFlag c where
  registers r hr := (h.registers r hr).symm
  others := by
    rw [h.others]

theorem Cpu.agreesButFlag_setFlag (c : Cpu) (a b : Bool) :
    (c.setFlag a).AgreesButFlag (c.setFlag b) where
  registers r hr := by
    rw [setFlag, setFlag, c.get_set_of_ne _ hr, c.get_set_of_ne _ hr]
  others := rfl

namespace Machine

/-- The machine with another picture on its display. -/
def withDisplay (m : Machine) (d : Display) : Machine := { m with display := d }

variable {m : Machine} {i : Instruction}

/-- Only clearing and drawing have to do with the display. -/
theorem execute_withDisplay (m : Machine) (d : Display) (h : i.isDisplay = false) :
    (m.withDisplay d).execute i = (m.execute i).within (·.withDisplay d) := by
  have hcpu : (m.withDisplay d).cpu = m.cpu := rfl
  have hmemory : (m.withDisplay d).memory = m.memory := rfl
  cases i with
  | clearScreen | draw => cases h
  | ret =>
    simp only [execute, hcpu]
    cases m.cpu.stack.pop? <;> rfl
  | call target =>
    simp only [execute, hcpu]
    cases m.cpu.stack.push? m.cpu.pc <;> rfl
  | awaitKey x =>
    simp only [execute, hcpu]
    cases m.cpu.keypad.latch <;> rfl
  | storeDecimal x | dump x =>
    simp only [execute, store, hcpu, hmemory]
    cases (m.memory.writeMany m.cpu.index.toNat _).2 <;> rfl
  | restore x =>
    simp only [execute, restore, hcpu, hmemory]
    cases (m.memory.readMany m.cpu.index.toNat (x + 1)).2 <;> rfl
  | _ => rfl

theorem cycle_withDisplay (d : Display) (h : ∀ i, m.next? = some i → i.isDisplay = false) :
    (m.withDisplay d).cycle = m.cycle.within (·.withDisplay d) := by
  rcases cycle_cases m with ⟨fault, hw, hc⟩ | ⟨w, hw, hd, hc⟩ | ⟨w, i, hw, hd, hc⟩
  · rw [hc, cycle_of_fault (m := m.withDisplay d) hw]
    rfl
  · rw [hc, cycle_of_unknown (m := m.withDisplay d) hw hd]
    rfl
  · have hfetched : (m.withDisplay d).fetched = m.fetched.withDisplay d := rfl
    have hi : i.isDisplay = false := h i (next?_eq_some.2 ⟨w, hw, hd⟩)
    rw [hc, cycle_of_decoded (m := m.withDisplay d) hw hd, hfetched,
      execute_withDisplay m.fetched d hi]
    rfl

/-- The display is the same behind a cycle that fetches nothing that could change it. -/
theorem display_cycle_of_next? (h : ∀ i, m.next? = some i → i.isDisplay = false) :
    m.cycle.state.display = m.display :=
  congrArg (fun o : Outcome Machine Instruction => o.state.display) (cycle_withDisplay m.display h)

theorem memory_cycle_of_next? (h : ∀ i, m.next? = some i → i.isStore = false) :
    m.cycle.state.memory = m.memory := by
  rcases cycle_cases m with ⟨fault, -, hc⟩ | ⟨w, -, -, hc⟩ | ⟨w, i, hw, hd, hc⟩
  · rw [hc, Outcome.state_fail]
  · rw [hc, Outcome.state_fail]
    rfl
  · have hstored : i.stored = 0 :=
      Instruction.stored_of_not_isStore (h i (next?_eq_some.2 ⟨w, hw, hd⟩))
    rw [hc, Outcome.state_map]
    apply Memory.ext_get?
    intro a _
    apply memory_execute m.fetched i
    omega

/-- What a cycle does to anything but the display has nothing to do with the display, except for
the report in VF. -/
structure Overlooks (m : Machine) (d : Display) : Prop where
  result : (m.withDisplay d).cycle.result = m.cycle.result
  records : (m.withDisplay d).cycle.records = m.cycle.records
  memory : (m.withDisplay d).cycle.state.memory = m.cycle.state.memory
  cpu : (m.withDisplay d).cycle.state.cpu.AgreesButFlag m.cycle.state.cpu

theorem overlooks_of_within {d e : Display}
    (h : (m.withDisplay d).cycle = m.cycle.within (·.withDisplay e)) : m.Overlooks d := by
  constructor
  all_goals rw [h]
  case cpu => exact .refl _
  all_goals rfl

theorem overlooks_of_draw {x y : Register} {height : Fin 16} (h : m.next? = some (.draw x y height))
    (d : Display) : m.Overlooks d := by
  have hnext : (m.withDisplay d).next? = some (.draw x y height) := h
  have hrows : (m.withDisplay d).fetched.spriteRows y height = m.fetched.spriteRows y height := rfl
  have hindex : (m.withDisplay d).fetched.cpu.index = m.fetched.cpu.index := rfl
  have hcycle := cycle_of_next? h
  have hcycle' := cycle_of_next? hnext
  rw [execute_draw] at hcycle
  rw [execute_draw, hrows, hindex] at hcycle'
  cases hr : Memory.overrun m.fetched.cpu.index.toNat (m.fetched.spriteRows y height) with
  | none =>
    rw [hr] at hcycle hcycle'
    constructor
    all_goals rw [hcycle, hcycle']
    case cpu => exact m.fetched.cpu.agreesButFlag_setFlag _ _
    all_goals rfl
  | some fault =>
    rw [hr] at hcycle hcycle'
    constructor
    all_goals rw [hcycle, hcycle']
    case cpu => exact .refl _
    all_goals rfl

theorem overlooks (m : Machine) (d : Display) : m.Overlooks d := by
  cases hnext : m.next? with
  | none =>
    apply overlooks_of_within (cycle_withDisplay d _)
    intro i hi
    cases hnext.symm.trans hi
  | some i =>
    cases i with
    | clearScreen =>
      have hnext' : (m.withDisplay d).next? = some .clearScreen := hnext
      apply overlooks_of_within (e := .blank)
      rw [cycle_of_next? hnext, cycle_of_next? hnext']
      rfl
    | draw x y height => exact overlooks_of_draw hnext d
    | _ =>
      apply overlooks_of_within (cycle_withDisplay d _)
      intro j hj
      cases hnext.symm.trans hj
      rfl

/-- Wherever it draws, a cycle flips the same pixels. -/
theorem display_cycle_of_draw {x y : Register} {height : Fin 16}
    (h : m.next? = some (.draw x y height)) (d : Display) :
    (m.withDisplay d).cycle.state.display = d ^^^ m.spriteMask x y height := by
  have hnext : (m.withDisplay d).next? = some (.draw x y height) := h
  rw [cycle_of_next? hnext, Outcome.state_map]
  exact (m.withDisplay d).fetched.display_draw x y height

theorem flag_cycle_of_draw {x y : Register} {height : Fin 16}
    (h : m.next? = some (.draw x y height))
    (hfits : m.cpu.index.toNat + m.spriteRows y height ≤ 4095) :
    m.cycle.state.cpu.get .flag = 1 ↔ m.display.meets (m.spriteMask x y height) = true := by
  have hok : (m.fetched.execute (.draw x y height)).result = .ok () :=
    result_draw.2 (.inr hfits)
  rw [cycle_of_next? h, Outcome.state_map, state_draw hok]
  exact Cpu.get_flag_setFlag _ _

end Machine

namespace Ensemble

variable {n : Nat} {e : Ensemble n} {i j : Fin n}

/-- The next cycle of a processor fetches an instruction of a kind. -/
def Fetches (e : Ensemble n) (i : Fin n) (kind : Instruction → Bool) : Prop :=
  ∃ op, (e.machine i).next? = some op ∧ kind op = true

theorem Fetches.not {kind : Instruction → Bool} (h : ¬ e.Fetches i kind) (op : Instruction)
    (hop : (e.machine i).next? = some op) : kind op = false :=
  Bool.eq_false_iff.2 fun hkind => h ⟨op, hop, hkind⟩

theorem not_fetches {kind : Instruction → Bool} {op : Instruction}
    (hop : (e.machine i).next? = some op) (h : kind op = false) : ¬ e.Fetches i kind := by
  rintro ⟨other, hother, hkind⟩
  cases hop.symm.trans hother
  cases h.symm.trans hkind

theorem ext_cpu {f : Ensemble n} (hcpu : ∀ k, (e.machine k).cpu = (f.machine k).cpu)
    (hmemory : e.memory = f.memory) (hdisplay : e.display = f.display) : e = f := by
  obtain ⟨cpus, memory, display⟩ := e
  obtain ⟨cpus', memory', display'⟩ := f
  cases hmemory
  cases hdisplay
  have hcpus : cpus = cpus' := Vector.ext fun k hk => hcpu ⟨k, hk⟩
  rw [hcpus]

theorem memory_cycle (h : ¬ e.Fetches i (·.isStore)) : (e.cycle i).state.memory = e.memory :=
  Machine.memory_cycle_of_next? (Fetches.not h)

theorem cpu_cycle_of_ne (e : Ensemble n) {k : Fin n} (hk : k ≠ i) :
    ((e.cycle i).state.machine k).cpu = (e.machine k).cpu := by
  show ((e.put i _).machine k).cpu = _
  rw [cpu_put, if_neg hk.symm]

theorem display_drawn {x y : Register} {height : Fin 16}
    (h : (e.machine i).next? = some (.draw x y height)) :
    (e.machine i).cycle.state.display = e.display ^^^ (e.machine i).spriteMask x y height :=
  Machine.display_cycle_of_draw h e.display

/-- A turn that leaves memory alone gives the next processor another display and nothing else. -/
theorem machine_cycle_of_ne (hij : i ≠ j) (h : ¬ e.Fetches i (·.isStore)) :
    (e.cycle i).state.machine j =
      (e.machine j).withDisplay (e.machine i).cycle.state.display := by
  show Machine.mk ((e.cycle i).state.machine j).cpu (e.cycle i).state.memory _ = _
  rw [e.cpu_cycle_of_ne hij.symm, memory_cycle h]
  rfl

/-- A processor answers and records the same before another one's turn and behind it. -/
structure Undisturbed (e : Ensemble n) (i j : Fin n) : Prop where
  result : ((e.cycle j).state.cycle i).result = (e.cycle i).result
  records : ((e.cycle j).state.cycle i).records = (e.cycle i).records

theorem undisturbed (hij : i ≠ j) (h : ¬ e.Fetches j (·.isStore)) : e.Undisturbed i j := by
  have hoverlooks := (e.machine i).overlooks (e.machine j).cycle.state.display
  constructor
  case result =>
    show ((e.cycle j).state.machine i).cycle.result = _
    rw [machine_cycle_of_ne hij.symm h]
    exact hoverlooks.result
  case records =>
    show ((e.cycle j).state.machine i).cycle.records = _
    rw [machine_cycle_of_ne hij.symm h]
    exact hoverlooks.records

/-- Ensembles that differ in VF of two processors at most. -/
structure AgreeButFlags (i j : Fin n) (e f : Ensemble n) : Prop where
  memory : e.memory = f.memory
  display : e.display = f.display
  cpus : ∀ k, k = i ∨ k = j → (e.machine k).cpu.AgreesButFlag (f.machine k).cpu
  others : ∀ k, k ≠ i → k ≠ j → (e.machine k).cpu = (f.machine k).cpu

section

variable (hij : i ≠ j) (hi : ¬ e.Fetches i (·.isStore)) (hj : ¬ e.Fetches j (·.isStore))

include hij hi

/-- The processor that goes second, on the display that the first has left. -/
theorem machine_second : ((e.cycle i).state.cycle j).state.machine j =
    ((e.machine j).withDisplay (e.machine i).cycle.state.display).cycle.state := by
  rw [← machine_cycle_of_ne hij hi]
  show Machine.mk (((e.cycle i).state.cycle j).state.machine j).cpu _ _ = _
  rw [cpu_cycle]
  rfl

/-- Both draws flip their own pixels, whichever comes first. -/
theorem display_of_draws {x y x' y' : Register} {height height' : Fin 16}
    (hdraw : (e.machine i).next? = some (.draw x y height))
    (hdraw' : (e.machine j).next? = some (.draw x' y' height')) :
    ((e.cycle i).state.cycle j).state.display =
      e.display ^^^ (e.machine i).spriteMask x y height ^^^
        (e.machine j).spriteMask x' y' height' := by
  have hsecond := congrArg Machine.display (machine_second hij hi)
  rw [Machine.display_cycle_of_draw hdraw', display_drawn hdraw] at hsecond
  exact hsecond

/-- The second draw reports what it turns off of the first. -/
theorem flag_second {x y x' y' : Register} {height height' : Fin 16}
    (hdraw : (e.machine i).next? = some (.draw x y height))
    (hdraw' : (e.machine j).next? = some (.draw x' y' height'))
    (hfits : (e.machine j).cpu.index.toNat + (e.machine j).spriteRows y' height' ≤ 4095) :
    (((e.cycle i).state.cycle j).state.machine j).cpu.get .flag = 1 ↔
      (e.display ^^^ (e.machine i).spriteMask x y height).meets
        ((e.machine j).spriteMask x' y' height') = true := by
  have hnext : ((e.machine j).withDisplay (e.machine i).cycle.state.display).next? =
      some (.draw x' y' height') := hdraw'
  rw [machine_second hij hi, Machine.flag_cycle_of_draw hnext hfits, ← display_drawn hdraw]
  rfl

include hj

theorem memory_both : ((e.cycle i).state.cycle j).state.memory = e.memory := by
  have hsecond := congrArg Machine.memory (machine_second hij hi)
  refine hsecond.trans (((e.machine j).overlooks _).memory.trans ?_)
  exact memory_cycle hj

/-- Only through the display can the order of two turns show. -/
theorem agreeButFlags_of_display
    (hdisplay : ((e.cycle i).state.cycle j).state.display =
      ((e.cycle j).state.cycle i).state.display) :
    AgreeButFlags i j ((e.cycle i).state.cycle j).state ((e.cycle j).state.cycle i).state where
  memory := (memory_both hij hi hj).trans (memory_both hij.symm hj hi).symm
  display := hdisplay
  cpus k hk := by
    rcases hk with rfl | rfl
    · rw [machine_second hij.symm hj, cpu_cycle_of_ne _ hij, cpu_cycle]
      exact ((e.machine k).overlooks _).cpu.symm
    · rw [machine_second hij hi, cpu_cycle_of_ne _ hij.symm, cpu_cycle]
      exact ((e.machine k).overlooks _).cpu
  others k hki hkj := by
    rw [cpu_cycle_of_ne _ hkj, cpu_cycle_of_ne _ hki, cpu_cycle_of_ne _ hki, cpu_cycle_of_ne _ hkj]

/-- A processor that leaves the display alone may go first or second. -/
theorem cycles_swap (hplain : ¬ e.Fetches j (·.isDisplay)) :
    ((e.cycle i).state.cycle j).state = ((e.cycle j).state.cycle i).state := by
  have hkept : (e.machine j).cycle.state.display = e.display :=
    Machine.display_cycle_of_next? (Fetches.not hplain)
  have hfirst : (e.cycle j).state.machine i = e.machine i := by
    rw [machine_cycle_of_ne hij.symm hj, hkept]
    rfl
  have hsecond := machine_second hij hi
  rw [Machine.cycle_withDisplay _ (Fetches.not hplain)] at hsecond
  have hother : ((e.cycle j).state.cycle i).state.machine i = (e.machine i).cycle.state := by
    have hsecond := machine_second hij.symm hj
    rw [← machine_cycle_of_ne hij.symm hj, hfirst] at hsecond
    exact hsecond
  have hdisplay : ((e.cycle i).state.cycle j).state.display =
      ((e.cycle j).state.cycle i).state.display :=
    (congrArg Machine.display hsecond).trans (congrArg Machine.display hother).symm
  have hagree := agreeButFlags_of_display hij hi hj hdisplay
  apply ext_cpu _ hagree.memory hdisplay
  intro k
  by_cases hki : k = i
  · subst hki
    rw [hother, cpu_cycle_of_ne _ hij, cpu_cycle]
  · by_cases hkj : k = j
    · subst hkj
      rw [hsecond, cpu_cycle_of_ne _ hij.symm, cpu_cycle]
      rfl
    · exact hagree.others k hki hkj

end

theorem Fetches.draw (h : e.Fetches i (·.isDraw)) :
    ∃ x y height, (e.machine i).next? = some (.draw x y height) := by
  obtain ⟨op, hop, hdraw⟩ := h
  cases op with
  | draw x y height => exact ⟨x, y, height, hop⟩
  | _ => cases hdraw

/-- Two processors that write no memory may take their turns in either order. Each answers and
records the same, and all is left the same unless both have to do with the display. Two draws leave
the same too, but for what they report in VF. -/
theorem turns_in_either_order (e : Ensemble n) (hij : i ≠ j) (hi : ¬ e.Fetches i (·.isStore))
    (hj : ¬ e.Fetches j (·.isStore)) :
    e.Undisturbed i j ∧ e.Undisturbed j i ∧
      (¬ (e.Fetches i (·.isDisplay) ∧ e.Fetches j (·.isDisplay)) →
        ((e.cycle i).state.cycle j).state = ((e.cycle j).state.cycle i).state) ∧
      (e.Fetches i (·.isDraw) → e.Fetches j (·.isDraw) →
        AgreeButFlags i j ((e.cycle i).state.cycle j).state ((e.cycle j).state.cycle i).state) := by
  refine ⟨undisturbed hij hj, undisturbed hij.symm hi, ?_, ?_⟩
  · intro hplain
    by_cases hdisplay : e.Fetches j (·.isDisplay)
    · have hother : ¬ e.Fetches i (·.isDisplay) := fun h => hplain ⟨h, hdisplay⟩
      exact (cycles_swap hij.symm hj hi hother).symm
    · exact cycles_swap hij hi hj hdisplay
  · intro hdraw hdraw'
    obtain ⟨x, y, height, hx⟩ := hdraw.draw
    obtain ⟨x', y', height', hx'⟩ := hdraw'.draw
    apply agreeButFlags_of_display hij hi hj
    rw [display_of_draws hij hi hx hx', display_of_draws hij.symm hj hx' hx]
    exact e.display.xor_right_comm _ _

/-- Two processors draw the digit zero on top of each other, and one meets a call of native code.
Whoever draws second turns the digit off. -/
theorem turns_of_drawing_processors :
    let cpu := Cpu.start {} (Vector.replicate 8 0) none
    let e : Ensemble 3 :=
      ⟨#v[cpu, cpu, cpu.advance], .holding [0xD0, 0x15, 0x00, 0x00], .blank⟩
    ((e.cycle 0).state.cycle 2).result = .error (.unsupportedCall 0 0x202) ∧
      ((e.cycle 0).state.cycle 2).state = ((e.cycle 2).state.cycle 0).state ∧
      AgreeButFlags 0 1 ((e.cycle 0).state.cycle 1).state ((e.cycle 1).state.cycle 0).state ∧
      (((e.cycle 0).state.cycle 1).state.machine 1).cpu.get .flag = 1 ∧
      (((e.cycle 1).state.cycle 0).state.machine 1).cpu.get .flag ≠ 1 := by
  intro cpu e
  let memory := Memory.holding [0xD0, 0x15, 0x00, 0x00]
  have hword : memory.readWord 0x200 = .ok 0xD015 :=
    @Memory.readWord_of_get? _ _ 0xD0 0x15 (Memory.get?_holding _ (by decide))
      (Memory.get?_holding _ (by decide))
  have hzero : memory.readWord 0x202 = .ok 0 :=
    @Memory.readWord_of_get? _ _ 0x00 0x00 (Memory.get?_holding _ (by decide))
      (Memory.get?_holding _ (by decide))
  have hfirst : (e.machine 0).next? = some (.draw (nibble 0) (nibble 1) (nibble 5)) :=
    Machine.next?_eq_some.2 ⟨_, hword, rfl⟩
  have hsecond : (e.machine 1).next? = some (.draw (nibble 0) (nibble 1) (nibble 5)) :=
    Machine.next?_eq_some.2 ⟨_, hword, rfl⟩
  have hnative : (e.machine 2).next? = some (.machineCode 0) :=
    Machine.next?_eq_some.2 ⟨_, hzero, rfl⟩
  have hbyte : memory.get? 0 = some 0xF0 := Memory.get?_holding _ (by decide)
  have hcovers : (e.machine 1).Covers (nibble 0) (nibble 1) (nibble 5) 0 0 :=
    ⟨by decide, by decide⟩
  have hkeeps : ¬ e.Fetches 0 (·.isStore) := not_fetches hfirst rfl
  obtain ⟨-, hanswer, hsame, -⟩ :=
    turns_in_either_order e (by decide : (0 : Fin 3) ≠ 2) hkeeps (not_fetches hnative rfl)
  obtain ⟨-, -, -, hdraws⟩ :=
    turns_in_either_order e (by decide : (0 : Fin 3) ≠ 1) hkeeps (not_fetches hsecond rfl)
  -- This holds of any ensemble, and checking it needs no run of the program.
  have hturn (e : Ensemble 3) (k : Fin 3) : (e.cycle k).result = (e.machine k).cycle.result := rfl
  have hunsupported : (e.machine 2).cycle.result = .error (.unsupportedCall 0 0x202) :=
    Machine.result_cycle_of_zero hzero
  refine ⟨(hanswer.result.trans (hturn e 2)).trans hunsupported, hsame ?_,
    hdraws ⟨_, hfirst, rfl⟩ ⟨_, hsecond, rfl⟩, ?_, ?_⟩
  · exact fun h => not_fetches hnative rfl h.2
  · rw [flag_second (by decide) hkeeps hfirst hsecond (by decide)]
    apply Display.meets_after_flip.2
    exact ⟨0, 0, Machine.pixel_spriteMask_eq_true.2 ⟨0xF0, hcovers, hbyte, by decide⟩,
      Display.pixel_blank _ _⟩
  · rw [cpu_cycle_of_ne _ (by decide), cpu_cycle, ne_eq,
      Machine.flag_cycle_of_draw hsecond (by decide), Display.meets_eq_true]
    rintro ⟨px, py, hlit, -⟩
    exact absurd ((Display.pixel_blank px py).symm.trans hlit) nofun

end Ensemble

end ChipEight
