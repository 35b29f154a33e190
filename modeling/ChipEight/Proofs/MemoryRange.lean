import ChipEight.Memory

namespace ChipEight.Memory

/-- How touching bytes in a row ends: at the first address out of range, if there is one. -/
@[irreducible]
def overrun (address n : Nat) : Option Fault :=
  if n = 0 ∨ address + n ≤ size then none else some (.addressOutOfBounds (max address size))

@[simp]
theorem overrun_zero (a : Nat) : overrun a 0 = none := by
  rw [overrun, if_pos (Or.inl rfl)]

theorem overrun_succ_of_lt {a : Nat} (h : a < size) (n : Nat) :
    overrun a (n + 1) = overrun (a + 1) n := by
  have hmax : max a size = max (a + 1) size := by omega
  have hiff : (n + 1 = 0 ∨ a + (n + 1) ≤ size) ↔ (n = 0 ∨ a + 1 + n ≤ size) := by omega
  simp only [overrun, hmax, hiff]

theorem overrun_succ_of_le {a : Nat} (h : size ≤ a) (n : Nat) :
    overrun a (n + 1) = some (.addressOutOfBounds a) := by
  rw [overrun, if_neg (by omega), Nat.max_eq_left h]

theorem overrun_eq_some {a n : Nat} {fault : Fault} :
    overrun a n = some fault ↔
      (n ≠ 0 ∧ size < a + n) ∧ fault = .addressOutOfBounds (max a size) := by
  unfold overrun
  split
  · simp only [reduceCtorEq, false_iff]
    omega
  · rename_i h
    rw [Option.some_inj, eq_comm (a := fault)]
    have hn : n ≠ 0 ∧ size < a + n := by omega
    simp [hn]

theorem read_of_lt (m : Memory) {a : Nat} (h : a < size) : m.read a = .ok m.bytes[a] := by
  simp [read, get?, h]

theorem read_of_le (m : Memory) {a : Nat} (h : size ≤ a) :
    m.read a = .error (.addressOutOfBounds a) := by
  rw [read, get?_eq_none.2 h]

theorem get?_of_lt (m : Memory) {a : Nat} (h : a < size) : m.get? a = some m.bytes[a] := by
  simp [get?, h]

theorem get?_initial {a : Nat} (h : a < size) : initial.get? a = some (font.getD a 0) := by
  rw [get?_of_lt _ h]
  simp [initial]

theorem write_of_lt (m : Memory) {a : Nat} (h : a < size) (byte : UInt8) :
    m.write a byte = .ok ⟨m.bytes.set a byte h⟩ := by
  rw [write, dif_pos h]

theorem write_of_le (m : Memory) {a : Nat} (h : size ≤ a) (byte : UInt8) :
    m.write a byte = .error (.addressOutOfBounds a) := by
  rw [write, dif_neg (by omega)]

theorem fault_readMany (m : Memory) (a n : Nat) : (m.readMany a n).2 = overrun a n := by
  induction n generalizing a with
  | zero => simp [readMany]
  | succ n ih =>
    rcases Nat.lt_or_ge a size with h | h
    · rw [overrun_succ_of_lt h, ← ih, readMany, read_of_lt m h]
    · rw [overrun_succ_of_le h, readMany, read_of_le m h]

theorem getElem?_readMany (m : Memory) (a n k : Nat) :
    (m.readMany a n).1[k]? = if k < n then m.get? (a + k) else none := by
  induction n generalizing a k with
  | zero => simp [readMany]
  | succ n ih =>
    rcases Nat.lt_or_ge a size with h | h
    · rw [readMany, read_of_lt m h]
      cases k with
      | zero => simp [get?_of_lt m h]
      | succ k =>
        have hk : a + 1 + k = a + (k + 1) := by omega
        simp [ih, hk]
    · have hk : m.get? (a + k) = none := get?_eq_none.2 (by omega)
      rw [readMany, read_of_le m h]
      simp [hk]

/-- Reading depends on the bytes that are read and on nothing else. -/
theorem readMany_congr {m m' : Memory} {a n : Nat} (h : ∀ k < n, m'.get? (a + k) = m.get? (a + k)) :
    m'.readMany a n = m.readMany a n := by
  apply Prod.ext
  · apply List.ext_getElem?
    intro k
    rw [getElem?_readMany, getElem?_readMany]
    split
    · rename_i hk
      exact h k hk
    · rfl
  · rw [fault_readMany, fault_readMany]

theorem fault_writeMany (m : Memory) (a : Nat) (bytes : List UInt8) :
    (m.writeMany a bytes).2 = overrun a bytes.length := by
  induction bytes generalizing m a with
  | nil => simp [writeMany]
  | cons byte bytes ih =>
    rcases Nat.lt_or_ge a size with h | h
    · rw [List.length_cons, overrun_succ_of_lt h, writeMany, write_of_lt m h]
      exact ih _ _
    · rw [List.length_cons, overrun_succ_of_le h, writeMany, write_of_le m h]

theorem readWord_of_lt (m : Memory) {a : Nat} (h : a + 1 < size) :
    m.readWord a = .ok (m.bytes[a].toUInt16 * 256 + m.bytes[a + 1].toUInt16) := by
  rw [readWord, read_of_lt m (Nat.lt_of_succ_lt h), read_of_lt m h]
  rfl

theorem readWord_of_le (m : Memory) {a : Nat} (h : size ≤ a + 1) :
    m.readWord a = .error (.addressOutOfBounds (max a size)) := by
  rw [readWord]
  rcases Nat.lt_or_ge a size with ha | ha
  · have hmax : max a size = a + 1 := by omega
    rw [read_of_lt m ha, read_of_le m h, hmax]
    rfl
  · rw [read_of_le m ha, Nat.max_eq_left ha]
    rfl

theorem fault_readWord {m : Memory} {a : Nat} {fault : Fault} (h : m.readWord a = .error fault) :
    ∃ address, fault = .addressOutOfBounds address := by
  rcases Nat.lt_or_ge (a + 1) size with ha | ha
  · rw [readWord_of_lt m ha] at h
    cases h
  · rw [readWord_of_le m ha] at h
    cases h
    exact ⟨_, rfl⟩

theorem readWord_of_get? {m : Memory} {a : Nat} {high low : UInt8} (hh : m.get? a = some high)
    (hl : m.get? (a + 1) = some low) : m.readWord a = .ok (high.toUInt16 * 256 + low.toUInt16) := by
  rw [readWord, read, hh, read, hl]
  rfl

theorem get?_load {m m' : Memory} {program : List UInt8} (h : m.load program = .ok m') (k : Nat) :
    m'.get? k =
      if programStart ≤ k then (program[k - programStart]?).or (m.get? k) else m.get? k := by
  unfold load at h
  split at h
  · rename_i fits
    cases h
    rw [get?_writeMany]
    rcases Nat.lt_or_ge k size with hk | hk
    · simp [hk]
    · have hnone : program[k - programStart]? = none := by
        rw [List.getElem?_eq_none_iff]
        unfold maxProgram at fits
        omega
      simp [hnone]
  · cases h

theorem readWord_load {m m' : Memory} {program : List UInt8} (h : m.load program = .ok m') (k : Nat)
    {high low : UInt8} (hh : program[k]? = some high) (hl : program[k + 1]? = some low) :
    m'.readWord (programStart + k) = .ok (high.toUInt16 * 256 + low.toUInt16) := by
  apply readWord_of_get?
  · rw [get?_load h, if_pos (by omega), Nat.add_sub_cancel_left, hh, Option.some_or]
  · rw [get?_load h, if_pos (by omega), Nat.add_assoc, Nat.add_sub_cancel_left, hl, Option.some_or]

theorem toNat_wordOf (high low : UInt8) :
    (high.toUInt16 * 256 + low.toUInt16).toNat = high.toNat * 256 + low.toNat := by
  have hh := high.toNat_lt
  have hl := low.toNat_lt
  simp only [UInt16.toNat_add, UInt16.toNat_mul, UInt8.toNat_toUInt16, UInt16.toNat_ofNat]
  omega

theorem lt_of_readWord {m : Memory} {a : Nat} {word : UInt16} (h : m.readWord a = .ok word) :
    a + 1 < size := by
  rcases Nat.lt_or_ge (a + 1) size with ha | ha
  · exact ha
  · rw [readWord_of_le m ha] at h
    cases h

/-- The font, then a program from 0x200 on, zero elsewhere. -/
def holding (program : List UInt8) : Memory :=
  ⟨Vector.ofFn fun a => if 0x200 ≤ a.val then program.getD (a - 0x200) 0 else font.getD a 0⟩

theorem ext_get? {m m' : Memory} (h : ∀ a < size, m.get? a = m'.get? a) : m = m' := by
  ext a ha : 2
  have hbyte := h a ha
  rw [get?_of_lt m ha, get?_of_lt m' ha] at hbyte
  exact Option.some_inj.1 hbyte

theorem get?_holding (program : List UInt8) {a : Nat} (ha : a < size) :
    (holding program).get? a =
      some (if 0x200 ≤ a then program.getD (a - 0x200) 0 else font.getD a 0) := by
  rw [get?_of_lt _ ha, holding, Vector.getElem_ofFn]

/-- The font ends where programs start, or before. -/
theorem getD_font {a : Nat} (ha : 0x200 ≤ a) : font.getD a 0 = 0 := by
  have hlength : font.length ≤ 0x200 := by decide
  rw [List.getD_eq_getElem?_getD, List.getElem?_eq_none (Nat.le_trans hlength ha)]
  rfl

theorem load_of_fits {program : List UInt8} (fits : program.length ≤ 3583) :
    initial.load program = .ok (holding program) := by
  cases h : initial.load program with
  | error fault =>
    rw [load, if_pos (show program.length ≤ maxProgram from fits)] at h
    cases h
  | ok loaded =>
    refine congrArg Except.ok (ext_get? fun a ha => ?_)
    rw [get?_load h, get?_initial ha, get?_holding program ha]
    by_cases hstart : 0x200 ≤ a
    · rw [if_pos hstart, if_pos (show programStart ≤ a from hstart), getD_font hstart,
        List.getD_eq_getElem?_getD, show programStart = 0x200 from rfl]
      cases program[a - 0x200]? <;> rfl
    · rw [if_neg hstart, if_neg (show ¬ programStart ≤ a from hstart)]

theorem load_of_not_fits {program : List UInt8} (long : 3583 < program.length) (m : Memory) :
    m.load program = .error (.programTooLarge program.length 3583) := by
  rw [load, if_neg (show ¬ program.length ≤ maxProgram from Nat.not_le.2 long)]
  rfl

end ChipEight.Memory
