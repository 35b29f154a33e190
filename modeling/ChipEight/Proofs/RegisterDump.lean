import ChipEight.Proofs.Effects
import ChipEight.Proofs.LastWriter
import ChipEight.Proofs.Runs

namespace ChipEight

namespace Cpu

/-- A memory has the registers V0 to Vx from an address on. -/
def SavedIn (c : Cpu) (x : Register) (memory : Memory) (address : Nat) : Prop :=
  ∀ r ≤ x, memory.get? (address + r) = some (c.get r)

theorem getElem?_upTo (c : Cpu) {x r : Register} (h : r ≤ x) :
    (c.upTo x)[r.val]? = some (c.get r) := by
  have hr : r.val < x + 1 := Nat.lt_succ_of_le h
  simp [upTo, get, hr]

namespace SavedIn

variable {c : Cpu} {x y : Register} {memory other : Memory} {a : Nat}

theorem mono (h : c.SavedIn x memory a) (hy : y ≤ x) : c.SavedIn y memory a :=
  fun r hr => h r (Fin.le_trans hr hy)

theorem congr (h : c.SavedIn x memory a)
    (hsame : ∀ r ≤ x, other.get? (a + r) = memory.get? (a + r)) : c.SavedIn x other a := by
  intro r hr
  rw [hsame r hr]
  exact h r hr

theorem lt (h : c.SavedIn x memory a) : a + x < Memory.size := by
  have hlast := h x (Fin.le_refl x)
  apply Nat.lt_of_not_le
  intro hbeyond
  rw [Memory.get?_eq_none.2 hbeyond] at hlast
  cases hlast

end SavedIn

end Cpu

namespace Machine

variable {m : Machine} {x : Register}

theorem result_dump :
    (m.execute (.dump x)).result = .ok () ↔ m.cpu.index.toNat + x < Memory.size := by
  have htouches : m.reach (.dump x) ≠ 0 := Nat.succ_ne_zero x
  exact result_execute_of_reach htouches

theorem result_restore :
    (m.execute (.restore x)).result = .ok () ↔ m.cpu.index.toNat + x < Memory.size := by
  have htouches : m.reach (.restore x) ≠ 0 := Nat.succ_ne_zero x
  exact result_execute_of_reach htouches

theorem get_restore (m : Machine) (x r : Register) :
    (m.execute (.restore x)).state.cpu.get r =
      if r ≤ x then (m.memory.get? (m.cpu.index.toNat + r)).getD (m.cpu.get r)
      else m.cpu.get r := by
  have hiff : r.val < x + 1 ↔ r ≤ x := Nat.lt_succ_iff
  simp only [execute, restore, Outcome.state_ofFault, Cpu.get_setMany, List.getD_eq_getElem?_getD,
    Memory.getElem?_readMany, hiff]
  split <;> simp

theorem savedIn_dump (h : (m.execute (.dump x)).result = .ok ()) :
    m.cpu.SavedIn x (m.execute (.dump x)).state.memory m.cpu.index.toNat := by
  have hlast := result_dump.1 h
  intro r hr
  have hle : r.val ≤ x.val := hr
  have hin : m.cpu.index.toNat ≤ m.cpu.index.toNat + r ∧ m.cpu.index.toNat + r < Memory.size := by
    omega
  simp only [execute, store, Outcome.state_ofFault]
  rw [Memory.get?_writeMany, if_pos hin, Nat.add_sub_cancel_left, Cpu.getElem?_upTo _ hr,
    Option.some_or]

theorem cpu_dump (m : Machine) (x : Register) : (m.execute (.dump x)).state.cpu = m.cpu := by
  simp only [execute, store, Outcome.state_ofFault]

/-- Words behind the saved registers stay. -/
theorem readWord_dump {a : Nat} (h : m.cpu.index.toNat + x < a) :
    (m.execute (.dump x)).state.memory.readWord a = m.memory.readWord a := by
  have hbehind (b : Nat) (hb : a ≤ b) :
      (m.execute (.dump x)).state.memory.get? b = m.memory.get? b := by
    apply memory_execute
    rintro ⟨-, hlow⟩
    have hlow' : b < m.cpu.index.toNat + (x + 1) := hlow
    omega
  simp only [Memory.readWord, Memory.read, hbehind a (Nat.le_refl a), hbehind (a + 1) (by omega)]

theorem memory_restore (m : Machine) (x : Register) :
    (m.execute (.restore x)).state.memory = m.memory := by
  simp only [execute, restore, Outcome.state_ofFault]

theorem pc_restore (m : Machine) (x : Register) :
    (m.execute (.restore x)).state.cpu.pc = m.cpu.pc := by
  simp only [execute, restore, Outcome.state_ofFault, Cpu.pc_setMany]

theorem savedIn_restore (h : (m.execute (.restore x)).result = .ok ()) :
    (m.execute (.restore x)).state.cpu.SavedIn x (m.execute (.restore x)).state.memory
      (m.execute (.restore x)).state.cpu.index.toNat := by
  have hlast := result_restore.1 h
  have hindex := (effect_execute m (.restore x)).index nofun nofun nofun
  rw [memory_restore, hindex]
  intro r hr
  have hle : r.val ≤ x.val := hr
  have hin : m.cpu.index.toNat + r < Memory.size := by omega
  rw [get_restore, if_pos hr, Memory.get?_of_lt _ hin, Option.getD_some]

/-- Registers that are in memory can be loaded from there. -/
theorem restore_of_savedIn {c : Cpu} (h : c.SavedIn x m.memory m.cpu.index.toNat) :
    (m.execute (.restore x)).result = .ok () ∧
      ∀ r, (m.execute (.restore x)).state.cpu.get r = if r ≤ x then c.get r else m.cpu.get r := by
  constructor
  · exact result_restore.2 h.lt
  · intro r
    rw [get_restore]
    split
    · rename_i hr
      rw [h r hr, Option.getD_some]
    · rfl

/-- Writing the registers where they already are changes nothing. -/
theorem dump_of_savedIn (h : m.cpu.SavedIn x m.memory m.cpu.index.toNat) :
    (m.execute (.dump x)).result = .ok () ∧ (m.execute (.dump x)).state.memory = m.memory := by
  have hok := result_dump.2 h.lt
  refine ⟨hok, Memory.ext_get? fun a _ => ?_⟩
  by_cases hin : m.cpu.index.toNat ≤ a ∧ a < m.cpu.index.toNat + (x + 1)
  · have hr : a - m.cpu.index.toNat < 16 := by omega
    have hrx : (⟨a - m.cpu.index.toNat, hr⟩ : Register) ≤ x := by
      show a - m.cpu.index.toNat ≤ x.val
      omega
    have ha : m.cpu.index.toNat + (a - m.cpu.index.toNat) = a := Nat.add_sub_cancel' hin.1
    have hwritten := savedIn_dump hok _ hrx
    rw [← h _ hrx, ha] at hwritten
    exact hwritten
  · exact memory_execute m (.dump x) hin

theorem get?_cycle {a : Nat} (h : ∀ i, m.next? = some i →
    ¬ (m.cpu.index.toNat ≤ a ∧ a < m.cpu.index.toNat + i.stored)) :
    m.cycle.state.memory.get? a = m.memory.get? a := by
  rcases cycle_cases m with ⟨fault, -, hc⟩ | ⟨w, -, -, hc⟩ | ⟨w, i, hw, hd, hc⟩
  · rw [hc, Outcome.state_fail]
  · rw [hc, Outcome.state_fail]
    rfl
  · rw [hc, Outcome.state_map]
    exact memory_execute m.fetched i (h i (next?_eq_some.2 ⟨w, hw, hd⟩))

end Machine

namespace Session

variable {s : Session} {x : Register}

/-- The addresses that a step writes to. An instruction that fails on its way may stop short of the
last ones. -/
def writes (s : Session) : Machine.Operation → List Nat
  | .load program => if program.length ≤ 3583 then List.range' 0x200 program.length else []
  | .cycle =>
    if s.halted then [] else
      match s.machine.next? with
      | some i => List.range' s.machine.cpu.index.toNat i.stored
      | none => []
  | _ => []

theorem writes_of_next? {i : Instruction} (h : s.machine.next? = some i) (hi : i.stored = 0) :
    s.writes .cycle = [] := by
  rw [writes, h]
  simp only [hi, List.range'_zero, ite_self]

/-- The addresses that steps write to. -/
def written (ops : List Machine.Operation) (s : Session) : List Nat := s.collect writes ops

theorem get?_load {program : List UInt8} {a : Nat} (h : a ∉ s.writes (.load program)) :
    (s.load program).state.machine.memory.get? a = s.machine.memory.get? a := by
  rw [(machine_load s program).2]
  show (s.machine.load program).state.memory.get? a = _
  cases hload : s.machine.memory.load program with
  | error fault => simp only [Machine.load, hload, Outcome.state_fail]
  | ok memory =>
    have hfits : program.length ≤ 3583 := by
      apply Nat.le_of_not_lt
      intro long
      rw [Memory.load_of_not_fits long] at hload
      cases hload
    rw [writes, if_pos hfits, List.mem_range'_1] at h
    simp only [Machine.load, hload, Outcome.state_done]
    exact (Memory.get?_load_cases hload a).2 h

theorem get?_perform {op : Machine.Operation} {a : Nat} (h : a ∉ s.writes op) :
    (s.perform op.guarded).state.machine.memory.get? a = s.machine.memory.get? a := by
  cases op with
  | load program => exact get?_load h
  | cycle =>
    show s.cycle.state.machine.memory.get? a = _
    cases hh : s.halted with
    | true => rw [cycle_of_halted hh, Outcome.state_fail]
    | false =>
      rw [machine_cycle hh]
      apply Machine.get?_cycle
      intro i hi
      simpa [writes, hh, hi, List.mem_range'_1] using h
  | tick | setKey | poll => rfl

/-- A byte stays until something is written to its address. -/
theorem get?_follow {ops : List Machine.Operation} {a : Nat} (h : a ∉ s.written ops) :
    (s.follow ops).machine.memory.get? a = s.machine.memory.get? a := by
  revert h
  apply collect_induction
    (P := fun past t => a ∉ past → t.machine.memory.get? a = s.machine.memory.get? a)
  case start => exact fun _ => rfl
  case step =>
    intro past t op ih hnot
    rw [List.mem_append, not_or] at hnot
    rw [get?_perform hnot.2]
    exact ih hnot.1

theorem savedIn_cycle (h : s.cycle.result = .ok (.dump x)) :
    s.machine.cpu.SavedIn x s.cycle.state.machine.memory s.machine.cpu.index.toNat := by
  obtain ⟨-, hok, hstate⟩ := cycle_ok h
  rw [hstate]
  exact Machine.savedIn_dump hok

theorem restore_of_savedIn {c : Cpu} (live : s.halted = false)
    (hnext : s.machine.next? = some (.restore x))
    (h : c.SavedIn x s.machine.memory s.machine.cpu.index.toNat) :
    s.cycle.result = .ok (.restore x) ∧ ∀ r,
      s.cycle.state.machine.cpu.get r = if r ≤ x then c.get r else s.machine.cpu.get r := by
  have hfetched : c.SavedIn x s.machine.fetched.memory s.machine.fetched.cpu.index.toNat := h
  obtain ⟨hok, hregisters⟩ := Machine.restore_of_savedIn hfetched
  obtain ⟨hresult, hstate⟩ := cycle_of_next? live hnext hok
  rw [hstate]
  exact ⟨hresult, hregisters⟩

theorem get_past_load (s : Session) (x : Register) (byte : UInt8) :
    (s.past (.load x byte)).machine.cpu.get x = byte :=
  (Cpu.get_set _ x x byte).trans (if_pos rfl)

theorem get_past_load_of_ne (s : Session) {x y : Register} (byte : UInt8) (h : y ≠ x) :
    (s.past (.load x byte)).machine.cpu.get y = s.machine.cpu.get y :=
  Cpu.get_set_of_ne _ byte h

/-- A session that has saved registers goes on behind the word, with another memory. Words behind
the saved registers stay. -/
theorem past_dump (h : s.cycle.result = .ok (.dump x)) : ∃ memory : Memory,
    s.cycle.state = { s with machine := { s.machine.fetched with memory := memory } } ∧
      ∀ a, s.machine.cpu.index.toNat + x < a → memory.readWord a = s.machine.memory.readWord a := by
  obtain ⟨-, -, hstate⟩ := cycle_ok h
  refine ⟨(s.machine.fetched.execute (.dump x)).state.memory, ?_, ?_⟩
  · rw [hstate]
    simp only [past, Machine.execute, Machine.store, Outcome.state_ofFault]
  · intro a ha
    have hbehind : s.machine.fetched.cpu.index.toNat + x < a := ha
    exact Machine.readWord_dump hbehind

/-- A session that has loaded registers goes on behind the word, with the memory that it had. -/
theorem past_restore (h : s.cycle.result = .ok (.restore x)) :
    s.cycle.state.halted = false ∧ s.cycle.state.machine.cpu.pc = s.machine.cpu.pc + 2 ∧
      s.cycle.state.machine.memory = s.machine.memory := by
  obtain ⟨-, -, hstate⟩ := cycle_ok h
  have live := live_of_ok h
  rw [hstate]
  exact ⟨live, s.machine.fetched.pc_restore x, s.machine.fetched.memory_restore x⟩

theorem dump_of_restore (h : s.cycle.result = .ok (.restore x))
    (hnext : s.cycle.state.machine.next? = some (.dump x)) :
    s.cycle.state.cycle.result = .ok (.dump x) ∧
      s.cycle.state.cycle.state.machine.memory = s.machine.memory := by
  obtain ⟨live, -, hmemory⟩ := past_restore h
  -- Moving past the next word touches neither registers nor memory.
  have hsaved : s.cycle.state.machine.fetched.cpu.SavedIn x s.cycle.state.machine.fetched.memory
      s.cycle.state.machine.fetched.cpu.index.toNat := by
    obtain ⟨-, hok, hstate⟩ := cycle_ok h
    rw [hstate]
    exact Machine.savedIn_restore hok
  obtain ⟨hdumped, hunchanged⟩ := Machine.dump_of_savedIn hsaved
  obtain ⟨hresult, hafter⟩ := cycle_of_next? live hnext hdumped
  refine ⟨hresult, ?_⟩
  rw [hafter]
  exact hunchanged.trans hmemory

/-- Registers that a program has saved come back as they were, whatever happens in between, unless
it writes to where they are. Saving registers that have just been loaded changes no memory. -/
theorem saved_registers_return (s : Session) :
    (∀ ops, s.follow (s.unroll ops) = s.after ops ∧
      ∀ before between later, s.unroll ops = before ++ .cycle :: (between ++ .cycle :: later) →
        let d := s.follow before
        let r := d.cycle.state.follow between
        ∀ x y, d.cycle.result = .ok (.dump x) →
          (∀ k ≤ x.val, d.machine.cpu.index.toNat + k ∉ d.cycle.state.written between) →
          r.halted = false → r.machine.next? = some (.restore y) → y ≤ x →
          r.machine.cpu.index = d.machine.cpu.index →
          r.cycle.result = .ok (.restore y) ∧ ∀ v, r.cycle.state.machine.cpu.get v =
            if v ≤ y then d.machine.cpu.get v else r.machine.cpu.get v) ∧
    ∀ x, s.cycle.result = .ok (.restore x) → s.cycle.state.machine.next? = some (.dump x) →
      s.cycle.state.cycle.result = .ok (.dump x) ∧
        s.cycle.state.cycle.state.machine.memory = s.machine.memory := by
  refine ⟨fun ops => ⟨follow_unroll ops s, ?_⟩, fun x => dump_of_restore⟩
  intro before between later _ d r x y hdump hkept live hnext hyx hindex
  have hsaved : d.machine.cpu.SavedIn x r.machine.memory d.machine.cpu.index.toNat :=
    (savedIn_cycle hdump).congr fun v hv => get?_follow (hkept v hv)
  rw [← hindex] at hsaved
  exact restore_of_savedIn live hnext (hsaved.mono hyx)

/-- A program that sets V0 and V1, saves them, sets them anew, loads them and saves them again. -/
theorem changed_registers_return :
    let program : List UInt8 :=
      [0x60, 5, 0x61, 9, 0xA1, 0, 0xF1, 0x55, 0x60, 1, 0x61, 2, 0xF1, 0x65, 0xF1, 0x55]
    let s := (launch program {} (Vector.replicate 8 0) none).state
    let d := s.cycle.state.cycle.state.cycle.state
    let r := d.cycle.state.follow [.cycle, .tick, .cycle]
    (r.machine.cpu.get (nibble 0) = 1 ∧ r.machine.cpu.get (nibble 1) = 2) ∧
      (r.cycle.state.machine.cpu.get (nibble 0) = 5 ∧
        r.cycle.state.machine.cpu.get (nibble 1) = 9) ∧
      r.cycle.state.cycle.result = .ok (.dump (nibble 1)) ∧
      r.cycle.state.cycle.state.machine.memory = r.machine.memory := by
  intro program s d r
  let s₁ := s.past (.load (nibble 0) 5)
  let s₂ := s₁.past (.load (nibble 1) 9)
  let s₃ := s₂.past (.setIndex (Fin.ofNat 4096 0x100))
  have hload : Memory.initial.load program = .ok s.machine.memory := rfl
  have hw₀ : s.currentOpcode = .ok 0x6005 := Memory.readWord_load hload 0 rfl rfl
  have hw₁ : s₁.currentOpcode = .ok 0x6109 := Memory.readWord_load hload 2 rfl rfl
  have hw₂ : s₂.currentOpcode = .ok 0xA100 := Memory.readWord_load hload 4 rfl rfl
  have hw₃ : s₃.currentOpcode = .ok 0xF155 := Memory.readWord_load hload 6 rfl rfl
  have h₁ : s.cycle.state = s₁ := (cycle_of_word rfl hw₀ rfl rfl).2
  have h₂ : s₁.cycle.state = s₂ := (cycle_of_word rfl hw₁ rfl rfl).2
  have h₃ : s₂.cycle.state = s₃ := (cycle_of_word rfl hw₂ rfl rfl).2
  have hdump : s₃.cycle.result = .ok (.dump (nibble 1)) :=
    (cycle_of_word rfl hw₃ rfl (Machine.result_dump.2 (by decide))).1
  obtain ⟨saved, h₄, hbehind⟩ := past_dump hdump
  let s₄ : Session := { s₃ with machine := { s₃.machine.fetched with memory := saved } }
  let s₅ := s₄.past (.load (nibble 0) 1)
  let s₆ := s₅.tick.past (.load (nibble 1) 2)
  -- What is saved lies below the program.
  have hword {k : Nat} {w : UInt16} (hw : s.machine.memory.readWord (0x200 + k) = .ok w) :
      saved.readWord (0x200 + k) = .ok w :=
    (hbehind _ (show 0x100 + 1 < 0x200 + k by omega)).trans hw
  have hw₄ : s₄.currentOpcode = .ok 0x6001 := hword (Memory.readWord_load hload 8 rfl rfl)
  have hw₅ : s₅.tick.currentOpcode = .ok 0x6102 := hword (Memory.readWord_load hload 10 rfl rfl)
  have hw₆ : s₆.currentOpcode = .ok 0xF165 := hword (Memory.readWord_load hload 12 rfl rfl)
  obtain ⟨hset₅, h₅⟩ : s₄.cycle.result = .ok (.load (nibble 0) 1) ∧ s₄.cycle.state = s₅ :=
    cycle_of_word rfl hw₄ rfl rfl
  obtain ⟨hset₆, h₆⟩ : s₅.tick.cycle.result = .ok (.load (nibble 1) 2) ∧ s₅.tick.cycle.state = s₆ :=
    cycle_of_word rfl hw₅ rfl rfl
  -- These hold of any session, and checking them needs no run of the program.
  have hrun (t : Session) : t.unroll [.cycle, .cycle, .tick, .cycle, .cycle] =
      [] ++ .cycle :: ([.cycle, .tick, .cycle] ++ .cycle :: []) := rfl
  have hbetween (t : Session) :
      t.follow [.cycle, .tick, .cycle] = t.cycle.state.tick.cycle.state := rfl
  have hwritten (t : Session) : t.written [.cycle, .tick, .cycle] =
      t.writes .cycle ++ ([] ++ (t.cycle.state.tick.writes .cycle ++ [])) := rfl
  have hd : d = s₃ := by
    show s.cycle.state.cycle.state.cycle.state = s₃
    rw [h₁, h₂, h₃]
  have hr : s₃.cycle.state.follow [.cycle, .tick, .cycle] = s₆ := by
    rw [hbetween, h₄, h₅, h₆]
  have hkept : s₃.cycle.state.written [.cycle, .tick, .cycle] = [] := by
    rw [h₄, hwritten, h₅, writes_of_next? (cycle_ok hset₅).1 rfl,
      writes_of_next? (cycle_ok hset₆).1 rfl]
    rfl
  have hreturn {d r : Session} (hr : d.cycle.state.follow [.cycle, .tick, .cycle] = r)
      (hdump : d.cycle.result = .ok (.dump (nibble 1)))
      (hkept : d.cycle.state.written [.cycle, .tick, .cycle] = []) (live : r.halted = false)
      (hnext : r.machine.next? = some (.restore (nibble 1)))
      (hindex : r.machine.cpu.index = d.machine.cpu.index) :
      r.cycle.result = .ok (.restore (nibble 1)) ∧ ∀ v, r.cycle.state.machine.cpu.get v =
        if v ≤ nibble 1 then d.machine.cpu.get v else r.machine.cpu.get v := by
    subst hr
    have hnone (a : Nat) : a ∉ d.cycle.state.written [.cycle, .tick, .cycle] := by
      rw [hkept]
      exact List.not_mem_nil
    exact ((saved_registers_return d).1 _).2 [] _ [] (hrun d) _ _ hdump (fun _ _ => hnone _) live
      hnext (Fin.le_refl _) hindex
  have hnext : s₆.machine.next? = some (.restore (nibble 1)) :=
    Machine.next?_eq_some.2 ⟨_, hw₆, rfl⟩
  have hindex : s₆.machine.cpu.index = s₃.machine.cpu.index := rfl
  obtain ⟨hrestored, hregisters⟩ := hreturn hr hdump hkept rfl hnext hindex
  have hagain : s₆.cycle.state.machine.next? = some (.dump (nibble 1)) := by
    obtain ⟨-, hpc, hmemory⟩ := past_restore hrestored
    have hpc' : s₆.cycle.state.machine.cpu.pc.toNat = 0x200 + 14 := by
      rw [hpc]
      rfl
    rw [Machine.next?_eq_some, hpc', hmemory]
    exact ⟨_, hword (Memory.readWord_load hload 14 rfl rfl), rfl⟩
  have htick (t : Session) (v : Register) : t.tick.machine.cpu.get v = t.machine.cpu.get v := rfl
  have hfirst : s₃.machine.cpu.get (nibble 0) = 5 :=
    (get_past_load_of_ne s₁ 9 (by decide)).trans (get_past_load s (nibble 0) 5)
  have hsecond : s₃.machine.cpu.get (nibble 1) = 9 := get_past_load s₁ (nibble 1) 9
  have hfirst' : s₆.machine.cpu.get (nibble 0) = 1 :=
    (get_past_load_of_ne s₅.tick 2 (by decide)).trans
      ((htick s₅ _).trans (get_past_load s₄ (nibble 0) 1))
  have hsecond' : s₆.machine.cpu.get (nibble 1) = 2 := get_past_load s₅.tick (nibble 1) 2
  have hlast : r = s₆ := by
    show d.cycle.state.follow _ = s₆
    rw [hd, hr]
  rw [hlast]
  refine ⟨⟨hfirst', hsecond'⟩, ?_, (saved_registers_return s₆).2 (nibble 1) hrestored hagain⟩
  rw [hregisters, hregisters, if_pos (by decide), if_pos (by decide)]
  exact ⟨hfirst, hsecond⟩

end Session

end ChipEight
