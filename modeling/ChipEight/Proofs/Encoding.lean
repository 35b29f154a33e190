import ChipEight.Instruction.Encoding

namespace ChipEight

theorem Alu.code_of_ofCode? {n : Nat} {op : Alu} (h : Alu.ofCode? n = some op) : op.code = n := by
  unfold Alu.ofCode? at h
  split at h <;> cases h <;> rfl

namespace Instruction

/-- Two of the calls of native code would read as system calls. -/
def Proper : Instruction → Prop
  | .machineCode target => target.val ≠ 0x0E0 ∧ target.val ≠ 0x0EE
  | _ => True

theorem word_fields {family rest : Nat} (hf : family < 16) (hr : rest < 4096) :
    (word family rest).toNat / 4096 = family ∧ (word family rest).toNat % 4096 = rest := by
  have hlt : family * 4096 + rest < UInt16.size := by
    show _ < 65536
    omega
  have hw : (word family rest).toNat = family * 4096 + rest := UInt16.toNat_ofNat_of_lt hlt
  rw [hw]
  omega

theorem word_of_fields {w : UInt16} {family rest : Nat} (hf : w.toNat / 4096 = family)
    (hr : w.toNat % 4096 = rest) : word family rest = w := by
  have hw : w.toNat < 65536 := w.toNat_lt
  have h := word_fields (show family < 16 by omega) (show rest < 4096 by omega)
  apply UInt16.toNat_inj.1
  omega

theorem mod_of_fields {n x low : Nat} (h : n % 4096 = x * 256 + low) (hl : low < 256) :
    n % 256 = low := by
  omega

theorem ofNat_target {n : Nat} {target : Address} (h : n % 4096 = target) :
    Fin.ofNat 4096 n = target := Fin.ext h

theorem nibble_of_mod {n : Nat} {x : Register} (h : n % 16 = x) : nibble n = x :=
  Fin.ext h

theorem ofNat_byte {n : Nat} {byte : UInt8} (h : n % 256 = byte.toNat) : n.toUInt8 = byte :=
  UInt8.toNat_inj.1 (by simpa using h)

theorem decode_word {family rest : Nat} {i : Instruction} (hf : family < 16) (hr : rest < 4096)
    (h : ∀ w : UInt16, w.toNat / 4096 = family → w.toNat % 4096 = rest → decode w = some i) :
    decode (word family rest) = some i :=
  h _ (word_fields hf hr).1 (word_fields hf hr).2

/-- No two words stand for the same instruction. -/
theorem encode_of_decode {w : UInt16} {i : Instruction} (h : decode w = some i) :
    encode i = w := by
  have hw : w.toNat < 65536 := w.toNat_lt
  unfold decode at h
  simp only at h
  split at h
  case h_1 hf =>
    split at h
    · rename_i hz
      cases h
      exact (UInt16.toNat_inj.1 hz).symm
    · split at h
      · rename_i hz
        cases h
        exact (UInt16.toNat_inj.1 hz).symm
      · cases h
        exact word_of_fields hf rfl
  case h_6 hf | h_10 hf =>
    split at h
    · cases h
      apply word_of_fields hf
      simp
      omega
    · cases h
  case h_9 hf =>
    obtain ⟨op, hop, hi⟩ := Option.map_eq_some_iff.1 h
    cases hi
    apply word_of_fields hf
    rw [Alu.code_of_ofCode? hop]
    simp
    omega
  case h_15 hf =>
    split at h <;> cases h <;> apply word_of_fields hf <;> simp <;> omega
  case h_16 =>
    have hf : w.toNat / 4096 = 0xF := by
      simp only [imp_false] at *
      omega
    split at h <;> cases h <;> apply word_of_fields hf <;> simp <;> omega
  case h_2 hf | h_3 hf | h_11 hf | h_12 hf =>
    cases h
    exact word_of_fields hf rfl
  all_goals
    rename_i hf
    cases h
    apply word_of_fields hf
    simp
    omega

theorem fields_of_decode {w : UInt16} {i : Instruction} {family rest : Nat}
    (hd : decode w = some i) (he : encode i = word family rest) (hf : family < 16)
    (hr : rest < 4096) : w.toNat / 4096 = family ∧ w.toNat % 4096 = rest := by
  rw [← encode_of_decode hd, he]
  exact word_fields hf hr

theorem decode_encode {i : Instruction} (h : i.Proper) : decode (encode i) = some i := by
  cases i with
  | clearScreen | ret => rfl
  | machineCode target =>
    obtain ⟨hclear, hret⟩ := h
    have ht := target.isLt
    rw [encode]
    apply decode_word (by omega) ht
    intro w hf hr
    simp only [decode, hf, ofNat_target hr]
    rw [if_neg (by omega), if_neg (by omega)]
  | jump target | call target | setIndex target | jumpFrom target =>
    have ht := target.isLt
    rw [encode]
    apply decode_word (by omega) ht
    intro w hf hr
    simp only [decode, hf, ofNat_target hr]
  | load x byte | increment x byte | random x byte =>
    have hx := x.isLt
    have hb := byte.toNat_lt
    rw [encode]
    apply decode_word (by omega) (by omega)
    intro w hf hr
    have hX : nibble (w.toNat / 256) = x := nibble_of_mod (by omega)
    have hB : w.toNat.toUInt8 = byte := ofNat_byte (by omega)
    simp only [decode, hf, hX, hB]
  | draw x y height =>
    have hx := x.isLt
    have hy := y.isLt
    have hh := height.isLt
    rw [encode]
    apply decode_word (by omega) (by omega)
    intro w hf hr
    have hX : nibble (w.toNat / 256) = x := nibble_of_mod (by omega)
    have hY : nibble (w.toNat / 16) = y := nibble_of_mod (by omega)
    have hH : nibble w.toNat = height := nibble_of_mod (by omega)
    simp only [decode, hf, hX, hY, hH]
  | combine op x y =>
    have hx := x.isLt
    have hy := y.isLt
    have hc := op.code_lt
    rw [encode]
    apply decode_word (by omega) (by omega)
    intro w hf hr
    have hX : nibble (w.toNat / 256) = x := nibble_of_mod (by omega)
    have hY : nibble (w.toNat / 16) = y := nibble_of_mod (by omega)
    have hC : w.toNat % 16 = op.code := by omega
    simp only [decode, hf, hX, hY, hC, Alu.ofCode?_code, Option.map_some]
  | skipIf test =>
    cases test with
    | equalsByte x byte | differsFromByte x byte =>
      have hx := x.isLt
      have hb := byte.toNat_lt
      rw [encode]
      apply decode_word (by omega) (by omega)
      intro w hf hr
      have hX : nibble (w.toNat / 256) = x := nibble_of_mod (by omega)
      have hB : w.toNat.toUInt8 = byte := ofNat_byte (by omega)
      simp only [decode, hf, hX, hB]
    | equal x y | differ x y =>
      have hx := x.isLt
      have hy := y.isLt
      rw [encode]
      apply decode_word (by omega) (by omega)
      intro w hf hr
      have hX : nibble (w.toNat / 256) = x := nibble_of_mod (by omega)
      have hY : nibble (w.toNat / 16) = y := nibble_of_mod (by omega)
      have hZ : w.toNat % 16 = 0 := by omega
      simp only [decode, hf, hX, hY, hZ, if_true]
    | keyDown x | keyUp x =>
      have hx := x.isLt
      rw [encode]
      apply decode_word (by omega) (by omega)
      intro w hf hr
      have hX : nibble (w.toNat / 256) = x := nibble_of_mod (by omega)
      have hL := mod_of_fields hr (by omega)
      simp only [decode, hf, hX, hL]
  | _ x =>
    have hx := x.isLt
    rw [encode]
    apply decode_word (by omega) (by omega)
    intro w hf hr
    have hX : nibble (w.toNat / 256) = x := nibble_of_mod (by omega)
    have hL := mod_of_fields hr (by omega)
    simp only [decode, hf, hX, hL]

theorem decode_of_encode_eq {i : Instruction} {w : UInt16} (hp : i.Proper) (h : encode i = w) :
    decode w = some i := by
  rw [← h]
  exact decode_encode hp

end Instruction

end ChipEight
