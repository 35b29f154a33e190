import ChipEight.Proofs.Encoding
import ChipEight.Proofs.Faults
import ChipEight.Session

namespace ChipEight

open Instruction

/-- The family 0NNN, apart from the two system calls. -/
def CallsNative (w : UInt16) : Prop := w.toNat < 0x1000 ∧ w ≠ 0x00E0 ∧ w ≠ 0x00EE

theorem target_of_decode {w : UInt16} {target : Address}
    (hd : decode w = some (.machineCode target)) : target.val.toUInt16 = w := by
  rw [← encode_of_decode hd, encode, word, Nat.zero_mul, Nat.zero_add]

theorem callsNative_iff {w : UInt16} :
    CallsNative w ↔ ∃ target, decode w = some (.machineCode target) := by
  constructor
  · intro h
    obtain ⟨hlt, hclear, hret⟩ := h
    have hne (v : UInt16) (h : w ≠ v) : w.toNat ≠ v.toNat := fun he => h (UInt16.toNat_inj.1 he)
    refine ⟨⟨w.toNat, hlt⟩, decode_of_encode_eq ⟨hne _ hclear, hne _ hret⟩ ?_⟩
    exact word_of_fields (by omega) (Nat.mod_eq_of_lt hlt)
  · intro h
    obtain ⟨target, hd⟩ := h
    obtain ⟨hf, -⟩ := fields_of_decode hd rfl (by decide) target.isLt
    refine ⟨by omega, ?_, ?_⟩
    · intro hw
      subst hw
      cases hd
    · intro hw
      subst hw
      cases hd

theorem eq_ret_iff {w : UInt16} : w = 0x00EE ↔ decode w = some .ret := by
  constructor
  · intro h
    rw [h]
    rfl
  · intro h
    exact (encode_of_decode h).symm

theorem family_call_iff {w : UInt16} :
    w.toNat / 0x1000 = 0x2 ↔ ∃ target, decode w = some (.call target) := by
  constructor
  · intro hf
    refine ⟨Fin.ofNat 4096 w.toNat, decode_of_encode_eq trivial ?_⟩
    exact word_of_fields hf rfl
  · intro h
    obtain ⟨target, hd⟩ := h
    exact (fields_of_decode hd rfl (by decide) target.isLt).1

namespace Machine

def Underflows (m : Machine) (w : UInt16) : Prop := w = 0x00EE ∧ m.cpu.stack.depth.val = 0

def Overflows (m : Machine) (w : UInt16) : Prop :=
  w.toNat / 0x1000 = 0x2 ∧ m.cpu.stack.depth.val = 16

/-- How many rows of the sprite of a word DXYN are on screen. -/
def visible (m : Machine) (w : UInt16) : Nat :=
  min (w.toNat % 0x10) (32 - (m.cpu.get (nibble (w.toNat / 0x10))).toNat % 32)

/-- FX33, FX55, FX65 or DXYN with one of its bytes out of range. -/
def Overreaches (m : Machine) (w : UInt16) : Prop :=
  w.toNat / 0x1000 = 0xF ∧ w.toNat % 0x100 = 0x33 ∧ 4095 ≤ m.cpu.index.toNat + 2 ∨
  w.toNat / 0x1000 = 0xF ∧ (w.toNat % 0x100 = 0x55 ∨ w.toNat % 0x100 = 0x65) ∧
    4095 ≤ m.cpu.index.toNat + w.toNat / 0x100 % 0x10 ∨
  w.toNat / 0x1000 = 0xD ∧ 1 ≤ m.visible w ∧ 4095 ≤ m.cpu.index.toNat + m.visible w - 1

theorem overreaches_iff {m : Machine} {w : UInt16} :
    m.Overreaches w ↔
      ∃ i, decode w = some i ∧ m.reach i ≠ 0 ∧ Memory.size < m.cpu.index.toNat + m.reach i := by
  have hsize : Memory.size = 4095 := rfl
  constructor
  · intro h
    rcases h with ⟨hf, hl, hi⟩ | ⟨hf, hl | hl, hi⟩ | ⟨hf, hv, hi⟩
    · refine ⟨.storeDecimal (nibble (w.toNat / 256)), decode_of_encode_eq trivial ?_, ?_⟩
      · exact word_of_fields hf (by rw [val_nibble]; omega)
      · simp only [reach]
        omega
    · refine ⟨.dump (nibble (w.toNat / 256)), decode_of_encode_eq trivial ?_, ?_⟩
      · exact word_of_fields hf (by rw [val_nibble]; omega)
      · simp only [reach, val_nibble]
        omega
    · refine ⟨.restore (nibble (w.toNat / 256)), decode_of_encode_eq trivial ?_, ?_⟩
      · exact word_of_fields hf (by rw [val_nibble]; omega)
      · simp only [reach, val_nibble]
        omega
    · refine ⟨.draw (nibble (w.toNat / 256)) (nibble (w.toNat / 16))
        (nibble w.toNat), decode_of_encode_eq trivial ?_, ?_⟩
      · exact word_of_fields hf (by rw [val_nibble, val_nibble, val_nibble]; omega)
      · have hr : m.reach (.draw (nibble (w.toNat / 256)) (nibble (w.toNat / 16))
          (nibble w.toNat)) = m.visible w := rfl
        rw [hr]
        omega
  · intro h
    obtain ⟨i, hd, touches, beyond⟩ := h
    cases i with
    | storeDecimal x =>
      have hx := x.isLt
      obtain ⟨hf, hr⟩ := fields_of_decode hd rfl (by decide) (by omega)
      simp only [reach] at beyond
      exact .inl ⟨hf, by omega, by omega⟩
    | dump x | restore x =>
      have hx := x.isLt
      obtain ⟨hf, hr⟩ := fields_of_decode hd rfl (by decide) (by omega)
      simp only [reach] at beyond
      exact .inr (.inl ⟨hf, by omega, by omega⟩)
    | draw x y height =>
      have hx := x.isLt
      have hy := y.isLt
      have hh := height.isLt
      obtain ⟨hf, hr⟩ := fields_of_decode hd rfl (by decide) (by omega)
      have hY : nibble (w.toNat / 0x10) = y := nibble_of_mod (by omega)
      have hN : w.toNat % 0x10 = height := by omega
      have hv : m.visible w = m.reach (.draw x y height) := by
        rw [visible, hY, hN]
        rfl
      exact .inr (.inr ⟨hf, by omega, by omega⟩)
    | _ => cases touches rfl

theorem fails_iff {m : Machine} {w : UInt16} {i : Instruction} (hd : decode w = some i) :
    (∃ fault, m.Fails m.cpu.pc i fault) ↔
      CallsNative w ∨ m.Underflows w ∨ m.Overflows w ∨ m.Overreaches w := by
  constructor
  · intro h
    obtain ⟨fault, h⟩ := h
    cases h with
    | unsupported target => exact .inl (callsNative_iff.2 ⟨target, hd⟩)
    | underflow h => exact .inr (.inl ⟨eq_ret_iff.2 hd, h⟩)
    | overflow target h => exact .inr (.inr (.inl ⟨family_call_iff.2 ⟨target, hd⟩, h⟩))
    | overrun i touches beyond =>
      exact .inr (.inr (.inr (overreaches_iff.2 ⟨i, hd, touches, beyond⟩)))
  · intro h
    rcases h with h | ⟨hw, h⟩ | ⟨hw, h⟩ | h
    · obtain ⟨target, ht⟩ := callsNative_iff.1 h
      cases hd.symm.trans ht
      exact ⟨_, .unsupported target⟩
    · cases hd.symm.trans (eq_ret_iff.1 hw)
      exact ⟨_, .underflow h⟩
    · obtain ⟨target, ht⟩ := family_call_iff.1 hw
      cases hd.symm.trans ht
      exact ⟨_, .overflow target h⟩
    · obtain ⟨j, hj, touches, beyond⟩ := overreaches_iff.1 h
      cases hd.symm.trans hj
      exact ⟨_, .overrun i touches beyond⟩

/-- How a cycle ends that has fetched a word, with the address of the word in every report. -/
structure Diagnosed (m : Machine) (w : UInt16) (answer : Except Fault Instruction) : Prop where
  unknown : answer = .error (.unknownOpcode w m.cpu.pc) ↔ decode w = none
  unsupported : answer = .error (.unsupportedCall w m.cpu.pc) ↔ CallsNative w
  underflow : answer = .error (.stackUnderflow m.cpu.pc) ↔ m.Underflows w
  overflow : answer = .error (.stackOverflow m.cpu.pc) ↔ m.Overflows w
  outOfBounds : ∀ address, answer = .error (.addressOutOfBounds address) ↔
    address = max m.cpu.index.toNat 4095 ∧ m.Overreaches w
  executed : ∀ i, answer = .ok i ↔
    decode w = some i ∧
      ¬ (CallsNative w ∨ m.Underflows w ∨ m.Overflows w ∨ m.Overreaches w)

theorem diagnosed_cycle {m : Machine} {w : UInt16}
    (hw : m.memory.readWord m.cpu.pc.toNat = .ok w) : m.Diagnosed w m.cycle.result where
  unknown := by
    rw [result_cycle_error hw]
    constructor
    · intro h
      obtain ⟨hd, -⟩ | ⟨i, -, h⟩ := h
      · exact hd
      · cases h
    · intro hd
      exact .inl ⟨hd, rfl⟩
  unsupported := by
    rw [result_cycle_error hw, callsNative_iff]
    constructor
    · intro h
      obtain ⟨-, h⟩ | ⟨i, hd, h⟩ := h
      · cases h
      · cases h with
        | unsupported target => exact ⟨target, hd⟩
    · intro h
      obtain ⟨target, hd⟩ := h
      have ht := target_of_decode hd
      exact .inr ⟨_, hd, ht ▸ .unsupported target⟩
  underflow := by
    rw [result_cycle_error hw]
    constructor
    · intro h
      obtain ⟨-, h⟩ | ⟨i, hd, h⟩ := h
      · cases h
      · cases h with
        | underflow h => exact ⟨eq_ret_iff.2 hd, h⟩
    · intro h
      exact .inr ⟨_, eq_ret_iff.1 h.1, .underflow h.2⟩
  overflow := by
    rw [result_cycle_error hw]
    constructor
    · intro h
      obtain ⟨-, h⟩ | ⟨i, hd, h⟩ := h
      · cases h
      · cases h with
        | overflow target h => exact ⟨family_call_iff.2 ⟨target, hd⟩, h⟩
    · intro h
      obtain ⟨target, hd⟩ := family_call_iff.1 h.1
      exact .inr ⟨_, hd, .overflow target h.2⟩
  outOfBounds address := by
    rw [result_cycle_error hw, overreaches_iff]
    constructor
    · intro h
      obtain ⟨-, h⟩ | ⟨i, hd, h⟩ := h
      · cases h
      · cases h with
        | overrun i touches beyond => exact ⟨rfl, i, hd, touches, beyond⟩
    · intro h
      obtain ⟨ha, i, hd, touches, beyond⟩ := h
      rw [ha]
      exact .inr ⟨i, hd, .overrun i touches beyond⟩
  executed i := by
    rw [result_cycle_ok hw]
    constructor
    · intro h
      rw [← fails_iff h.1]
      exact ⟨h.1, not_exists.2 h.2⟩
    · intro h
      exact ⟨h.1, not_exists.1 (mt (fails_iff h.1).1 h.2)⟩

end Machine

/-- The result of a cycle of a session that is not halted. -/
theorem Session.cycle_diagnosis (s : Session) (live : s.halted = false) :
    (4095 ≤ s.machine.cpu.pc.toNat + 1 →
      s.currentOpcode = .error (.addressOutOfBounds (max s.machine.cpu.pc.toNat 4095)) ∧
      s.cycle.result = .error (.addressOutOfBounds (max s.machine.cpu.pc.toNat 4095))) ∧
    (s.machine.cpu.pc.toNat + 1 < 4095 → ∃ high low w,
      s.machine.memory.get? s.machine.cpu.pc.toNat = some high ∧
      s.machine.memory.get? (s.machine.cpu.pc.toNat + 1) = some low ∧
      w.toNat = high.toNat * 256 + low.toNat ∧
      s.currentOpcode = .ok w ∧ s.machine.Diagnosed w s.cycle.result ∧
      ∀ fault, s.cycle.result = .error fault →
        s.cycle.state.machine.cpu.pc = s.machine.cpu.pc + 2) := by
  rw [result_cycle live, machine_cycle live]
  constructor
  · intro h
    have hread := s.machine.memory.readWord_of_le h
    refine ⟨hread, ?_⟩
    rw [Machine.cycle_of_fault hread]
    rfl
  · intro h
    have hread := s.machine.memory.readWord_of_lt h
    exact ⟨_, _, _, Memory.get?_of_lt _ (Nat.lt_of_succ_lt h), Memory.get?_of_lt _ h,
      Memory.toNat_wordOf _ _, hread, Machine.diagnosed_cycle hread,
      fun fault hf => Machine.pc_cycle_of_error hread hf⟩

/-- With I at the last byte, a sprite fits with the one row that is on screen and not with two, and
two registers cannot be loaded. A return finds no call, and behind the last word there is nothing to
fetch. -/
theorem Session.diagnoses_at_the_end_of_memory :
    let launched (high low : UInt8) := (launch [high, low] {} (Vector.replicate 8 0) none).state
    let s (high low row : UInt8) (pc : UInt16) : Session := { launched high low with
      machine := { (launched high low).machine with
        cpu := { (launched high low).machine.cpu.set (nibble 1) row with index := 0xFFE, pc := pc } } }
    (s 0xD0 0x15 31 0x200).cycle.result = .ok (.draw (nibble 0) (nibble 1) (nibble 5)) ∧
      (s 0xD0 0x15 30 0x200).cycle.result = .error (.addressOutOfBounds 4095) ∧
      (s 0xF1 0x65 0 0x200).cycle.result = .error (.addressOutOfBounds 4095) ∧
      (s 0x00 0xEE 0 0x200).cycle.result = .error (.stackUnderflow 0x200) ∧
      (s 0x00 0xEE 0 0xFFE).cycle.result = .error (.addressOutOfBounds 4095) := by
  intro launched s
  have hload (high low row : UInt8) :
      Memory.initial.load [high, low] = .ok (s high low row 0x200).machine.memory := rfl
  have hdiagnosed (high low row : UInt8) :
      (s high low row 0x200).machine.Diagnosed (high.toUInt16 * 256 + low.toUInt16)
        (s high low row 0x200).cycle.result := by
    obtain ⟨_, _, w, -, -, -, hw, hdiagnosed, -⟩ :=
      (cycle_diagnosis (s high low row 0x200) rfl).2 (show 0x200 + 1 < 4095 by decide)
    have hword := Memory.readWord_load (hload high low row) 0 rfl rfl
    cases hw.symm.trans hword
    exact hdiagnosed
  have hfetch := (cycle_diagnosis (s 0x00 0xEE 0 0xFFE) rfl).1 (by decide)
  refine ⟨?_, ?_, ?_, ?_, hfetch.2⟩
  · refine ((hdiagnosed 0xD0 0x15 31).executed _).2 ⟨rfl, ?_⟩
    unfold CallsNative Machine.Underflows Machine.Overflows Machine.Overreaches
    decide
  · refine ((hdiagnosed 0xD0 0x15 30).outOfBounds _).2 ⟨rfl, ?_⟩
    unfold Machine.Overreaches
    decide
  · refine ((hdiagnosed 0xF1 0x65 0).outOfBounds _).2 ⟨rfl, ?_⟩
    unfold Machine.Overreaches
    decide
  · exact (hdiagnosed 0x00 0xEE 0).underflow.2 ⟨rfl, rfl⟩

end ChipEight
