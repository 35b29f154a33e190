import ChipEight.Proofs.Arithmetic
import ChipEight.Proofs.Bounds
import ChipEight.Proofs.Drawing
import ChipEight.Proofs.OpcodeTable

namespace ChipEight

/-- The instructions that move the program counter themselves. -/
def Instruction.branches : Instruction → Bool
  | .ret | .jump _ | .call _ | .skipIf _ | .jumpFrom _ | .awaitKey _ => true
  | _ => false

/-- The test that comes out the other way round. -/
def Condition.opposite : Condition → Condition
  | .equalsByte x byte => .differsFromByte x byte
  | .differsFromByte x byte => .equalsByte x byte
  | .equal x y => .differ x y
  | .differ x y => .equal x y
  | .keyDown x => .keyUp x
  | .keyUp x => .keyDown x

theorem Key.toNat_toByte (k : Key) : k.toByte.toNat = k.number.val := by
  have hk := k.number.isLt
  simp only [toByte, Nat.toUInt8_eq, UInt8.toNat_ofNat']
  omega

namespace Cpu

variable {c : Cpu} {x : Register} {test : Condition}

/-- A key is latched, and Vx has its number. -/
def Shows (c : Cpu) (x : Register) : Prop :=
  ∃ k, c.keypad.latch = some k ∧ k.number.val = (c.get x).toNat

/-- When a test comes out true. -/
def Meets (c : Cpu) : Condition → Prop
  | .equalsByte x byte => c.get x = byte
  | .differsFromByte x byte => c.get x ≠ byte
  | .equal x y => c.get x = c.get y
  | .differ x y => c.get x ≠ c.get y
  | .keyDown x => c.Shows x
  | .keyUp x => ¬ c.Shows x

theorem showsKey_iff : c.showsKey x = true ↔ c.Shows x := by
  simp only [showsKey, Shows, decide_eq_true_eq, Option.map_eq_some_iff, ← UInt8.toNat_inj,
    Key.toNat_toByte]

theorem holds_iff : c.holds test = true ↔ c.Meets test := by
  cases test with
  | keyDown x => exact showsKey_iff
  | keyUp x => rw [Meets, ← showsKey_iff, holds, Bool.not_eq_true', Bool.not_eq_true]
  | _ => exact decide_eq_true_iff

theorem meets_opposite : c.Meets test.opposite ↔ ¬ c.Meets test := by
  cases test with
  | equalsByte | equal | keyDown => exact Iff.rfl
  | differsFromByte | differ | keyUp => exact Classical.not_not.symm

/-- Keys have the numbers that a nibble can hold. -/
theorem not_shows (h : c.keypad.latch = none ∨ 15 < (c.get x).toNat) : ¬ c.Shows x := by
  rintro ⟨k, hk, hnumber⟩
  rcases h with hnone | hlarge
  · cases hnone.symm.trans hk
  · have hlt := k.number.isLt
    omega

end Cpu

namespace Machine

open Instruction

/-- Where an instruction that succeeds takes the counter from the machine that it finds. -/
def Leads (m : Machine) (next : Nat) : Instruction → Prop
  | .jump target | .call target => next = target
  | .jumpFrom target => next = target + (m.cpu.get .first).toNat
  | .ret => ∃ address, m.cpu.stack.frames.getLast? = some address ∧ next = address.toNat
  | .awaitKey _ =>
    (m.cpu.keypad.latch = none → next = m.cpu.pc.toNat) ∧
      (m.cpu.keypad.latch ≠ none → next = m.cpu.pc.toNat + 2)
  | .skipIf test =>
    (m.cpu.Meets test → next = m.cpu.pc.toNat + 4) ∧
      (¬ m.cpu.Meets test → next = m.cpu.pc.toNat + 2)
  | _ => next = m.cpu.pc.toNat + 2

/-- The cycle makes a test and moves the counter this far. -/
def Tests (m : Machine) (test : Condition) (distance : Nat) : Prop :=
  m.cycle.result = .ok (.skipIf test) ∧ m.cycle.state.cpu.pc.toNat = m.cpu.pc.toNat + distance

variable {m : Machine} {i : Instruction} {test : Condition}

theorem pc_execute (m : Machine) (h : i.branches = false) :
    (m.execute i).state.cpu.pc = m.cpu.pc := by
  cases i with
  | ret | jump | call | skipIf | jumpFrom | awaitKey => cases h
  | combine op x y => cases op <;> rfl
  | draw x y height => exact m.pc_draw x y height
  | storeDecimal x | dump x => simp only [execute, store, Outcome.state_ofFault]
  | restore x => simp only [execute, restore, Outcome.state_ofFault, Cpu.pc_setMany]
  | _ => rfl

/-- A jump that adds V0 to its target does not wrap around. -/
theorem toNat_jumpFrom (target : Address) (byte : UInt8) :
    (target.val.toUInt16 + byte.toUInt16).toNat = target + byte.toNat := by
  have ht := target.isLt
  have hbyte := byte.toNat_lt
  rw [UInt16.toNat_add, toNat_target, UInt8.toNat_toUInt16]
  omega

theorem pc_skipIf (m : Machine) (test : Condition) :
    (m.cpu.Meets test → (m.execute (.skipIf test)).state.cpu.pc = m.cpu.pc + 2) ∧
      (¬ m.cpu.Meets test → (m.execute (.skipIf test)).state.cpu.pc = m.cpu.pc) := by
  rw [← Cpu.holds_iff]
  constructor
  · intro hholds
    simp only [execute, if_pos hholds]
    rfl
  · intro hfails
    simp only [execute, if_neg hfails]
    rfl

theorem pc_awaitKey (m : Machine) (x : Register) :
    (m.cpu.keypad.latch = none →
        (m.execute (.awaitKey x)).state.cpu.pc = m.cpu.origin) ∧
      (m.cpu.keypad.latch ≠ none → (m.execute (.awaitKey x)).state.cpu.pc = m.cpu.pc) := by
  cases hlatch : m.cpu.keypad.latch with
  | none =>
    simp only [execute, hlatch]
    exact ⟨fun _ => rfl, fun h => absurd rfl h⟩
  | some key =>
    simp only [execute, hlatch]
    exact ⟨fun h => absurd h (Option.some_ne_none key), fun _ => rfl⟩

/-- Moving past the word changes nothing that a test looks at. -/
theorem meets_fetched : m.fetched.cpu.Meets test ↔ m.cpu.Meets test := by
  cases test <;> exact Iff.rfl

/-- The counter is at most two instructions behind a word that can be fetched, which is too low for
it to wrap around. -/
theorem leads_cycle (h : m.cycle.result = .ok i) : m.Leads m.cycle.state.cpu.pc.toNat i := by
  obtain ⟨w, hw, -, hc⟩ := cycle_ok h
  obtain ⟨hnext, hle⟩ := toNat_fetched hw
  have hskip : (m.fetched.cpu.pc + 2).toNat = m.cpu.pc.toNat + 4 := by
    have hpc : (m.fetched.cpu.pc + 2).toNat = m.fetched.cpu.pc.toNat + 2 :=
      Cpu.toNat_advance (by omega)
    omega
  rw [hc] at h ⊢
  obtain ⟨_, hok, -⟩ := Outcome.result_map_eq_ok.1 h
  rw [Outcome.state_map]
  cases i with
  | jump target => exact toNat_target target
  | call target =>
    simp only [execute] at hok ⊢
    cases hp : m.fetched.cpu.stack.push? m.fetched.cpu.pc with
    | none =>
      rw [hp] at hok
      cases hok
    | some stack => exact toNat_target target
  | jumpFrom target => exact toNat_jumpFrom target _
  | ret =>
    rcases m.fetched.stack_execute .ret with ⟨address, -, -, hp, hpc⟩ | ⟨target, hi, -⟩ | ⟨hnot, -⟩
    · refine ⟨address, ?_, congrArg UInt16.toNat hpc⟩
      have hframes : m.cpu.stack.frames = _ ++ [address] := CallStack.frames_pop? hp
      rw [hframes, List.getLast?_concat]
    · cases hi
    · exact absurd rfl (hnot hok).1
  | awaitKey x =>
    obtain ⟨hnone, hsome⟩ := m.fetched.pc_awaitKey x
    constructor
    · intro hlatch
      rw [hnone hlatch]
      exact congrArg UInt16.toNat m.cpu.origin_advance
    · intro hlatch
      rw [hsome hlatch, hnext]
  | skipIf test =>
    obtain ⟨hmeets, hfails⟩ := m.fetched.pc_skipIf test
    rw [meets_fetched] at hmeets hfails
    constructor
    · intro hm
      rw [hmeets hm, hskip]
    · intro hm
      rw [hfails hm, hnext]
  | _ => exact (congrArg UInt16.toNat (m.fetched.pc_execute rfl)).trans hnext

/-- A skip does not fail, and its test decides how far it goes. -/
theorem tests_of_next? (h : m.next? = some (.skipIf test)) :
    (m.cpu.Meets test → m.Tests test 4) ∧ (¬ m.cpu.Meets test → m.Tests test 2) := by
  obtain ⟨hresult, -⟩ := cycle_of_withCpu h rfl
  obtain ⟨hmeets, hfails⟩ := leads_cycle hresult
  exact ⟨fun hm => ⟨hresult, hmeets hm⟩, fun hm => ⟨hresult, hfails hm⟩⟩

/-- Of a test and its opposite one skips and the other does not, whatever the machine. -/
theorem tests_opposite {other : Memory} (h : m.next? = some (.skipIf test))
    (hother : { m with memory := other }.next? = some (.skipIf test.opposite)) :
    (m.Tests test 4 ∧ { m with memory := other }.Tests test.opposite 2) ∨
      (m.Tests test 2 ∧ { m with memory := other }.Tests test.opposite 4) := by
  obtain ⟨hskips, hpasses⟩ := tests_of_next? h
  obtain ⟨hskips', hpasses'⟩ := tests_of_next? hother
  rw [Cpu.meets_opposite] at hskips' hpasses'
  by_cases hm : m.cpu.Meets test
  · exact .inl ⟨hskips hm, hpasses' (not_not_intro hm)⟩
  · exact .inr ⟨hpasses hm, hskips' hm⟩

/-- The counter after a cycle, for each row of the opcode table. The two tests of a pair never agree,
and the keypad tests do not take an empty latch or a number that no key has for a key. -/
theorem counter_follows_instruction (m : Machine) :
    (∀ i, m.cycle.result = .ok i →
      (∃ w, m.memory.readWord m.cpu.pc.toNat = .ok w ∧ i.Spells w) ∧
        m.Leads m.cycle.state.cpu.pc.toNat i) ∧
    (∀ test other, m.next? = some (.skipIf test) →
      { m with memory := other }.next? = some (.skipIf test.opposite) →
        (m.Tests test 4 ∧ { m with memory := other }.Tests test.opposite 2) ∨
          (m.Tests test 2 ∧ { m with memory := other }.Tests test.opposite 4)) ∧
    ∀ x, m.cpu.keypad.latch = none ∨ 15 < (m.cpu.get x).toNat →
      (m.next? = some (.skipIf (.keyUp x)) → m.Tests (.keyUp x) 4) ∧
        (m.next? = some (.skipIf (.keyDown x)) → m.Tests (.keyDown x) 2) := by
  refine ⟨?_, ?_, ?_⟩
  · intro i h
    obtain ⟨w, hw, hd, -⟩ := cycle_ok h
    exact ⟨⟨w, hw, spells_iff.2 (encode_of_decode hd)⟩, leads_cycle h⟩
  · intro test other h hother
    exact tests_opposite h hother
  · intro x hx
    have hnot : ¬ m.cpu.Shows x := Cpu.not_shows hx
    exact ⟨fun h => (tests_of_next? h).1 hnot, fun h => (tests_of_next? h).2 hnot⟩

/-- With 255 in V0 and key F latched: an indexed jump leads beyond the end of memory, V0 is not the
number of a key, and a test for 255 skips where the opposite test does not. -/
theorem jump_beyond_memory :
    let cpu := ((Cpu.start {} (Vector.replicate 8 0) none).setKey (some ⟨15⟩)).set .first 255
    let m (word : List UInt8) : Machine :=
      ⟨cpu, (Memory.initial.writeMany Memory.programStart word).1, .blank⟩
    (m [0xBF, 0xFF]).cycle.state.cpu.pc.toNat = 0x10FE ∧
      (m [0xE0, 0xA1]).Tests (.keyUp .first) 4 ∧
      (m [0x30, 0xFF]).Tests (.equalsByte .first 0xFF) 4 ∧
      (m [0x40, 0xFF]).Tests (.differsFromByte .first 0xFF) 2 := by
  intro cpu m
  have hfirst : cpu.get .first = 255 := (Cpu.get_set _ _ _ _).trans (if_pos rfl)
  have hnext (high low : UInt8) {i : Instruction}
      (hd : decode (high.toUInt16 * 256 + low.toUInt16) = some i) :
      (m [high, low]).next? = some i := by
    have hload : Memory.initial.load [high, low] = .ok (m [high, low]).memory := rfl
    exact next?_of_load hload 0 rfl rfl rfl hd
  obtain ⟨hjump, -, -⟩ := counter_follows_instruction (m [0xBF, 0xFF])
  obtain ⟨-, -, hkeys⟩ := counter_follows_instruction (m [0xE0, 0xA1])
  obtain ⟨hskip, hpair, -⟩ := counter_follows_instruction (m [0x30, 0xFF])
  have hlarge : 15 < (cpu.get .first).toNat := by
    rw [hfirst]
    decide
  refine ⟨?_, (hkeys .first (.inr hlarge)).1 (hnext 0xE0 0xA1 rfl), ?_⟩
  · have hbeyond : (m [0xBF, 0xFF]).next? = some (.jumpFrom 0xFFF) := hnext 0xBF 0xFF rfl
    obtain ⟨hresult, -⟩ := cycle_of_withCpu hbeyond rfl
    have hleads : _ = 0xFFF + (cpu.get .first).toNat := (hjump _ hresult).2
    exact hleads.trans (congrArg (0xFFF + UInt8.toNat ·) hfirst)
  · rcases hpair _ (m [0x40, 0xFF]).memory (hnext 0x30 0xFF rfl) (hnext 0x40 0xFF rfl) with
      hpair | ⟨⟨hresult, hpc⟩, -⟩
    · exact hpair
    · have hleads := (hskip _ hresult).2.1 hfirst
      rw [hpc] at hleads
      omega

end Machine

end ChipEight
