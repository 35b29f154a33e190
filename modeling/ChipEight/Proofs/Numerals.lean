import ChipEight.Numeral

namespace ChipEight.Numeral

/-- Digits as they are written. -/
def spelled {base : Nat} (ds : List (Fin base)) : List Char :=
  ds.map fun d => digitChar d.val

/-- The number that digits stand for. -/
def valueOf {base : Nat} (ds : List (Fin base)) : Nat := ofDigits base (ds.map (·.val))

theorem spelled_cons {base : Nat} (d : Fin base) (ds : List (Fin base)) :
    spelled (d :: ds) = digitChar d :: spelled ds := rfl

theorem spelled_concat {base : Nat} (ds : List (Fin base)) (d : Fin base) :
    spelled (ds ++ [d]) = spelled ds ++ [digitChar d.val] := by
  rw [spelled, List.map_append]
  rfl

theorem valueOf_concat {base : Nat} (ds : List (Fin base)) (d : Fin base) :
    valueOf (ds ++ [d]) = valueOf ds * base + d := by
  rw [valueOf, List.map_append, List.map_singleton, ofDigits_append]
  rfl

/-- More digits do not make a number smaller. -/
theorem valueOf_le_append {base : Nat} (hb : 0 < base) (ds es : List (Fin base)) :
    valueOf ds ≤ valueOf (ds ++ es) := by
  induction es generalizing ds with
  | nil => exact Nat.le_of_eq (congrArg valueOf (List.append_nil ds).symm)
  | cons e es ih =>
    rw [List.append_cons]
    refine Nat.le_trans ?_ (ih (ds ++ [e]))
    rw [valueOf_concat]
    exact Nat.le_trans (Nat.le_mul_of_pos_right _ hb) (Nat.le_add_right _ _)

/-- A decimal digit is read as what was written, and nothing else is read. -/
theorem decimalDigit?_eq_some {c : Char} {d : Fin 10} :
    decimalDigit? c = some d ↔ c = digitChar d := by
  constructor
  · intro h
    unfold decimalDigit? at h
    split at h
    · rename_i hc
      cases h
      have hlt : c.toNat - 48 < 10 := by omega
      have hsum : 48 + (c.toNat - 48) = c.toNat := by omega
      rw [digitChar, if_pos hlt, hsum, Char.ofNat_toNat]
    · cases h
  · rintro rfl
    exact (by decide : ∀ d : Fin 10, decimalDigit? (digitChar d) = some d) d

theorem hexDigit?_digitChar : ∀ d : Fin 16, hexDigit? (digitChar d) = some d := by decide

theorem digitChar_inj {m n : Nat} (hm : m < 16) (hn : n < 16) (h : digitChar m = digitChar n) :
    m = n := by
  have hread := hexDigit?_digitChar ⟨m, hm⟩
  rw [h, hexDigit?_digitChar ⟨n, hn⟩] at hread
  exact (congrArg Fin.val (Option.some_inj.1 hread)).symm

theorem digits_of_lt {base n : Nat} (h : n < base) : digits base n = [n] := by
  rw [digits, dif_neg]
  omega

theorem digits_of_le {base n : Nat} (hb : 2 ≤ base) (h : base ≤ n) :
    digits base n = digits base (n / base) ++ [n % base] := by
  rw [digits, dif_pos ⟨hb, h⟩]

theorem digits_ne_nil (base n : Nat) : digits base n ≠ [] := by
  rw [digits]
  split <;> simp

/-- Only zero starts with a zero. -/
theorem head_digits {base n : Nat} (hn : n ≠ 0) : (digits base n).head? ≠ some 0 := by
  fun_induction digits base n with
  | case1 n h ih =>
    have hquotient : n / base ≠ 0 := by
      rw [ne_eq, Nat.div_eq_zero_iff]
      omega
    cases hd : digits base (n / base) with
    | nil => exact absurd hd (digits_ne_nil base _)
    | cons d ds =>
      rw [hd] at ih
      exact ih hquotient
  | case2 n h => simpa using hn

theorem length_digits_succ {base n places : Nat} (hb : 2 ≤ base)
    (h : (digits base (n / base)).length ≤ places) : (digits base n).length ≤ places + 1 := by
  by_cases hle : base ≤ n
  · rw [digits_of_le hb hle, List.length_append, List.length_singleton]
    omega
  · rw [digits_of_lt (Nat.lt_of_not_le hle), List.length_singleton]
    omega

theorem length_digits_word {n : Nat} (h : n < 65536) : (digits 16 n).length ≤ 4 := by
  have hlast : n / 16 / 16 / 16 < 16 := by omega
  have hone : (digits 16 (n / 16 / 16 / 16)).length ≤ 1 := by
    rw [digits_of_lt hlast]
    exact Nat.le_refl 1
  exact length_digits_succ (by decide) (length_digits_succ (by decide)
    (length_digits_succ (by decide) hone))

theorem ofDigits_zeros (base k : Nat) (ds : List Nat) :
    ofDigits base (List.replicate k 0 ++ ds) = ofDigits base ds := by
  induction k with
  | zero => rfl
  | succ k ih =>
    rw [← ih, List.replicate_succ, List.cons_append, ofDigits, List.foldl_cons, Nat.zero_mul]
    rfl

theorem exists_map_val {base : Nat} {ds : List Nat} (h : ∀ d ∈ ds, d < base) :
    ∃ es : List (Fin base), es.map (·.val) = ds := by
  induction ds with
  | nil => exact ⟨[], rfl⟩
  | cons d ds ih =>
    obtain ⟨es, hes⟩ := ih fun e he => h e (List.mem_cons_of_mem d he)
    exact ⟨⟨d, h d List.mem_cons_self⟩ :: es, by rw [List.map_cons, hes]⟩

/-- What is written for a number reads as that number. -/
theorem exists_spelled (base : Nat) (hb : 2 ≤ base) (places n : Nat) :
    ∃ ds : List (Fin base), padded places base n = spelled ds ∧ valueOf ds = n ∧
      ds.map (·.val) = List.replicate (places - (digits base n).length) 0 ++ digits base n := by
  have hlt : ∀ d ∈ List.replicate (places - (digits base n).length) 0 ++ digits base n,
      d < base := by
    intro d hd
    rcases List.mem_append.1 hd with hd | hd
    · rw [List.eq_of_mem_replicate hd]
      omega
    · exact digits_lt hb d hd
  obtain ⟨ds, hds⟩ := exists_map_val hlt
  refine ⟨ds, ?_, ?_, hds⟩
  · simp only [padded, ← hds, spelled, List.map_map]
    rfl
  · rw [valueOf, hds, ofDigits_zeros, ofDigits_digits]

/-- A decimal numeral has no zero in front of other digits. -/
theorem exists_numeral (n : Nat) :
    ∃ (d : Fin 10) (ds : List (Fin 10)), padded 1 10 n = spelled (d :: ds) ∧
      valueOf (d :: ds) = n ∧ (d = 0 → ds = []) := by
  obtain ⟨ds, hspelled, hvalue, hmap⟩ := exists_spelled 10 (by decide) 1 n
  have hlength : 1 - (digits 10 n).length = 0 := by
    have := List.length_pos_iff.2 (digits_ne_nil 10 n)
    omega
  rw [hlength, List.replicate_zero, List.nil_append] at hmap
  cases ds with
  | nil => exact absurd hmap.symm (digits_ne_nil 10 n)
  | cons d ds =>
    refine ⟨d, ds, hspelled, hvalue, ?_⟩
    rintro rfl
    by_cases hn : n = 0
    · subst hn
      rw [digits_of_lt (by decide)] at hmap
      exact List.map_eq_nil_iff.1 (List.cons.inj hmap).2
    · refine absurd ?_ (@head_digits 10 n hn)
      rw [← hmap]
      rfl

theorem padded_inj {base places m n : Nat} (hb : 2 ≤ base) (hbase : base ≤ 16)
    (h : padded places base m = padded places base n) : m = n := by
  obtain ⟨ds, hds, hm, -⟩ := exists_spelled base hb places m
  obtain ⟨es, hes, hn, -⟩ := exists_spelled base hb places n
  have hspelled : spelled ds = spelled es := by rw [← hds, ← hes, h]
  have hsame : ds = es :=
    (List.map_inj_right fun _ _ heq => Fin.ext (digitChar_inj (by omega) (by omega) heq)).1
      hspelled
  rw [← hm, ← hn, hsame]

theorem decimal_inj {m n : Nat} : decimal m = decimal n ↔ m = n := by
  constructor
  · intro h
    exact padded_inj (by decide) (by decide) (String.ofList_injective h)
  · rintro rfl
    rfl

theorem hex_inj {places m n : Nat} : hex places m = hex places n ↔ m = n := by
  constructor
  · intro h
    have hlist := congrArg String.toList h
    rw [hex, hex, String.toList_append, String.toList_append] at hlist
    exact padded_inj (by decide) (by decide)
      (String.ofList_injective (String.toList_injective (List.append_cancel_left hlist)))
  · rintro rfl
    rfl

/-- A 16-bit number has four hexadecimal places. -/
theorem exists_hexadecimal {n : Nat} (h : n < 65536) :
    ∃ a b c d : Fin 16, padded 4 16 n = spelled [a, b, c, d] ∧ valueOf [a, b, c, d] = n := by
  obtain ⟨ds, hspelled, hvalue, hmap⟩ := exists_spelled 16 (by decide) 4 n
  have hlength : ds.length = 4 := by
    have hle := length_digits_word h
    have hmap := congrArg List.length hmap
    rw [List.length_map, List.length_append, List.length_replicate] at hmap
    omega
  match ds, hlength with
  | [a, b, c, d], _ => exact ⟨a, b, c, d, hspelled, hvalue⟩

end ChipEight.Numeral
