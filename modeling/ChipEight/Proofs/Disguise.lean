import ChipEight.Proofs.Effects

namespace ChipEight

/-- The parts of a processor that programs cannot read. They show only where an instruction makes
use of them. -/
structure Cpu.Hidden where
  shiftInPlace : Bool
  random : Random.Generator
  logger : Option Log.Logger

namespace Cpu

def hidden (c : Cpu) : Hidden := ⟨c.shiftInPlace, c.random, c.logger⟩

/-- The processor with its hidden parts exchanged. -/
def disguise (c : Cpu) (h : Hidden) : Cpu :=
  { c with shiftInPlace := h.shiftInPlace, random := h.random, logger := h.logger }

/-- An instruction that comes to the same with other hidden parts. -/
def Hidden.Suits (h : Hidden) (c : Cpu) : Instruction → Prop
  | .random _ mask => h.random.next.1 &&& mask = c.random.next.1 &&& mask
  | .combine op x y => op.isShift = true → c.get x = c.get y ∨ h.shiftInPlace = c.shiftInPlace
  | _ => True

/-- What a cycle leaves of the hidden parts. -/
def Hidden.after (h : Hidden) : Except Fault Instruction → Hidden
  | .ok (.random ..) => { h with random := h.random.next.2 }
  | _ => h

theorem Hidden.after_logger (h : Hidden) (logger : Option Log.Logger)
    (answer : Except Fault Instruction) :
    { h with logger := logger : Hidden }.after answer = { h.after answer with logger := logger } := by
  unfold after
  split <;> rfl

theorem Hidden.shiftInPlace_after (h : Hidden) (answer : Except Fault Instruction) :
    (h.after answer).shiftInPlace = h.shiftInPlace := by
  unfold after
  split <;> rfl

theorem Hidden.logger_eq_after (h : Hidden) (answer : Except Fault Instruction) :
    (h.after answer).logger = h.logger := by
  unfold after
  split <;> rfl

theorem Hidden.random_after {h k : Hidden} (hsame : h.random = k.random)
    (answer : Except Fault Instruction) : (h.after answer).random = (k.after answer).random := by
  unfold after
  split
  · rw [hsame]
  · exact hsame

theorem suits_hidden (c : Cpu) (i : Instruction) : c.hidden.Suits c i := by
  cases i with
  | random x mask => rfl
  | combine op x y => exact fun _ => .inr rfl
  | _ => trivial

theorem disguise_combine (c : Cpu) (h : Hidden) (op : Alu) (x y : Register)
    (hop : op.isShift = true → c.get x = c.get y ∨ h.shiftInPlace = c.shiftInPlace) :
    (c.disguise h).combine op x y = (c.combine op x y).disguise h := by
  have hsource : c.get (if op.isShift && h.shiftInPlace then x else y) =
      c.get (if op.isShift && c.shiftInPlace then x else y) := by
    cases hshift : op.isShift with
    | false => rfl
    | true =>
      rcases hop hshift with hxy | hflag
      · rw [Bool.true_and, Bool.true_and, apply_ite c.get, apply_ite c.get, hxy, ite_self, ite_self]
      · rw [hflag]
  have hsource' : (c.disguise h).get (if op.isShift && (c.disguise h).shiftInPlace then x else y) =
      c.get (if op.isShift && c.shiftInPlace then x else y) := hsource
  simp only [combine, hsource']
  cases op <;> rfl

end Cpu

namespace Machine

def disguise (m : Machine) (h : Cpu.Hidden) : Machine := { m with cpu := m.cpu.disguise h }

variable (m : Machine) (h : Cpu.Hidden)

/-- None of them has to do with what registers and memory exchange. -/
theorem sparesRegisters_disguise : Cpu.SparesRegisters (·.disguise h) where
  index _ := rfl
  get _ _ := rfl
  set _ _ _ := rfl
  setMany _ _ := by simp only [Cpu.setMany, Cpu.disguise, Cpu.get]

theorem disguise_execute (i : Instruction) (hi : h.Suits m.cpu i) :
    ((m.disguise h).execute i).result = (m.execute i).result ∧
      ((m.disguise h).execute i).state = (m.execute i).state.disguise (h.after (.ok i)) := by
  cases i with
  | ret =>
    have hpop : (m.disguise h).cpu.stack.pop? = m.cpu.stack.pop? := rfl
    simp only [execute, hpop]
    split <;> exact ⟨rfl, rfl⟩
  | call target =>
    have hpush : (m.disguise h).cpu.stack.push? (m.disguise h).cpu.pc =
        m.cpu.stack.push? m.cpu.pc := rfl
    simp only [execute, hpush]
    split <;> exact ⟨rfl, rfl⟩
  | awaitKey x =>
    have hlatch : (m.disguise h).cpu.keypad.latch = m.cpu.keypad.latch := rfl
    simp only [execute, hlatch]
    split <;> exact ⟨rfl, rfl⟩
  | skipIf test =>
    have hholds : (m.disguise h).cpu.holds test = m.cpu.holds test := by cases test <;> rfl
    simp only [execute, hholds]
    split <;> exact ⟨rfl, rfl⟩
  | combine op x y =>
    have hcpu : (m.disguise h).cpu.combine op x y = (m.cpu.combine op x y).disguise h :=
      m.cpu.disguise_combine h op x y hi
    simp only [execute, hcpu]
    exact ⟨rfl, rfl⟩
  | random x mask =>
    have hbyte : (m.disguise h).cpu.random.next.1 &&& mask = m.cpu.random.next.1 &&& mask := hi
    simp only [execute, hbyte]
    exact ⟨rfl, rfl⟩
  | draw x y height =>
    have hdraw : (m.disguise h).draw x y height = (m.draw x y height).within (·.disguise h) :=
      draw_mapCpu (sparesRegisters_disguise h) m x y height
    simp only [execute, hdraw]
    exact ⟨rfl, rfl⟩
  | storeDecimal x | dump x =>
    have hstore (bytes : List UInt8) :
        (m.disguise h).store bytes = (m.store bytes).within (·.disguise h) :=
      store_mapCpu (sparesRegisters_disguise h) m bytes
    simp only [execute, hstore]
    exact ⟨rfl, rfl⟩
  | restore x =>
    have hrestore : (m.disguise h).restore x = (m.restore x).within (·.disguise h) :=
      restore_mapCpu (sparesRegisters_disguise h) m x
    simp only [execute, hrestore]
    exact ⟨rfl, rfl⟩
  | _ => exact ⟨rfl, rfl⟩

variable {m}

/-- The instructions that make use of hidden parts do not fail. -/
theorem suits_of_error {i : Instruction} {fault : Fault} (hr : (m.execute i).result = .error fault) :
    h.Suits m.cpu i ∧ h.after (.ok i) = h := by
  cases i with
  | random | combine => cases hr
  | _ => exact ⟨trivial, rfl⟩

/-- As long as the instruction comes to the same, a cycle does not show what is hidden. -/
theorem disguise_cycle (hi : ∀ i, m.cycle.result = .ok i → h.Suits m.cpu i) :
    (m.disguise h).cycle.result = m.cycle.result ∧
      (m.disguise h).cycle.state = m.cycle.state.disguise (h.after m.cycle.result) := by
  rcases cycle_cases m with ⟨fault, hw, hc⟩ | ⟨w, hw, hd, hc⟩ | ⟨w, i, hw, hd, hc⟩
  · rw [hc, cycle_of_fault (m := m.disguise h) hw]
    exact ⟨rfl, rfl⟩
  · rw [hc, cycle_of_unknown (m := m.disguise h) hw hd]
    exact ⟨rfl, rfl⟩
  · rw [hc] at hi ⊢
    rw [cycle_of_decoded (m := m.disguise h) hw hd]
    cases hr : (m.fetched.execute i).result with
    | ok done =>
      have hok : ((m.fetched.execute i).map fun _ => i).result = .ok i :=
        Outcome.result_map_eq_ok.2 ⟨done, hr, rfl⟩
      obtain ⟨hresult, hstate⟩ := disguise_execute m.fetched h i (hi i hok)
      rw [hok]
      exact ⟨Outcome.result_map_eq_ok.2 ⟨done, hresult.trans hr, rfl⟩, hstate⟩
    | error fault =>
      have herror : ((m.fetched.execute i).map fun _ => i).result = .error fault :=
        Outcome.result_map_eq_error.2 hr
      obtain ⟨hsuits, hafter⟩ := suits_of_error h hr
      obtain ⟨hresult, hstate⟩ := disguise_execute m.fetched h i hsuits
      rw [hafter] at hstate
      rw [herror]
      exact ⟨Outcome.result_map_eq_error.2 (hresult.trans hr), hstate⟩

/-- A cycle changes hidden parts as if nothing else were there. -/
theorem hidden_cycle (m : Machine) :
    m.cycle.state.cpu.hidden = m.cpu.hidden.after m.cycle.result := by
  have hsame := (disguise_cycle (m := m) m.cpu.hidden fun i _ => m.cpu.suits_hidden i).2
  exact congrArg (fun n : Machine => n.cpu.hidden) hsame

end Machine

end ChipEight
