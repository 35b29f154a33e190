import ChipEight.Json.Parser
import ChipEight.Json.Printer
import ChipEight.Proofs.Numerals

namespace ChipEight.Json

open Numeral

namespace Text

theorem isHigh_iff {u : UInt16} : isHigh u = true ↔ 0xD800 ≤ u.toNat ∧ u.toNat < 0xDC00 := by
  simp [isHigh, UInt16.le_iff_toNat_le, UInt16.lt_iff_toNat_lt]

theorem isLow_iff {u : UInt16} : isLow u = true ↔ 0xDC00 ≤ u.toNat ∧ u.toNat < 0xE000 := by
  simp [isLow, UInt16.le_iff_toNat_le, UInt16.lt_iff_toNat_lt]

theorem toNat_char (c : Char) : c.toNat < 0xD800 ∨ 0xDFFF < c.toNat ∧ c.toNat < 0x110000 := c.valid

theorem chars?_of_plain {u : UInt16} {us : List UInt16} (hhigh : isHigh u = false)
    (hlow : isLow u = false) : chars? (u :: us) = (chars? us).map (Char.ofNat u.toNat :: ·) := by
  cases us with
  | nil => simp [chars?, hhigh, hlow]
  | cons v us => simp [chars?, hhigh, hlow]

theorem chars?_of_pair {u v : UInt16} {us : List UInt16} (hhigh : isHigh u = true)
    (hlow : isLow v = true) : chars? (u :: v :: us) = (chars? us).map (pair u v :: ·) := by
  rw [chars?, if_pos hhigh, if_pos hlow]

/-- The units of a character are read as that character. -/
theorem chars?_unitsOf (c : Char) (us : List UInt16) :
    chars? (unitsOf c ++ us) = (chars? us).map (c :: ·) := by
  have hvalid := toNat_char c
  unfold unitsOf
  split
  · rename_i hsmall
    have hnat : c.toNat.toUInt16.toNat = c.toNat := by
      rw [Nat.toUInt16_eq, UInt16.toNat_ofNat']
      omega
    have hhigh : isHigh c.toNat.toUInt16 = false := by
      rw [Bool.eq_false_iff, ne_eq, isHigh_iff, hnat]
      omega
    have hlow : isLow c.toNat.toUInt16 = false := by
      rw [Bool.eq_false_iff, ne_eq, isLow_iff, hnat]
      omega
    rw [List.singleton_append, chars?_of_plain hhigh hlow, hnat, Char.ofNat_toNat]
  · rename_i hlarge
    let rest := c.toNat - 0x10000
    have hu : (0xD800 + rest / 0x400).toUInt16.toNat = 0xD800 + rest / 0x400 := by
      rw [Nat.toUInt16_eq, UInt16.toNat_ofNat']
      omega
    have hv : (0xDC00 + rest % 0x400).toUInt16.toNat = 0xDC00 + rest % 0x400 := by
      rw [Nat.toUInt16_eq, UInt16.toNat_ofNat']
      omega
    have hhigh : isHigh (0xD800 + rest / 0x400).toUInt16 = true := by
      rw [isHigh_iff, hu]
      omega
    have hlow : isLow (0xDC00 + rest % 0x400).toUInt16 = true := by
      rw [isLow_iff, hv]
      omega
    have hsum : 0x10000 + (0xD800 + rest / 0x400 - 0xD800) * 0x400 +
        (0xDC00 + rest % 0x400 - 0xDC00) = c.toNat := by
      omega
    have hpair : pair (0xD800 + rest / 0x400).toUInt16 (0xDC00 + rest % 0x400).toUInt16 = c := by
      rw [pair, hu, hv, hsum, Char.ofNat_toNat]
    rw [List.cons_append, List.singleton_append, chars?_of_pair hhigh hlow, hpair]

/-- A string is told from its units. -/
theorem string?_ofString (s : String) : (ofString s).string? = some s := by
  have hchars (cs : List Char) : chars? (cs.flatMap unitsOf) = some cs := by
    induction cs with
    | nil => rfl
    | cons c cs ih => rw [List.flatMap_cons, chars?_unitsOf, ih, Option.map_some]
  rw [string?, ofString, hchars, Option.map_some, String.ofList_toList]

end Text

namespace Parser

theorem hexUnit?_spelled {a b c d : Fin 16} {u : UInt16} (h : valueOf [a, b, c, d] = u.toNat) :
    hexUnit? (digitChar a) (digitChar b) (digitChar c) (digitChar d) = some u := by
  have hvalue : ofDigits 16 [a.val, b.val, c.val, d.val] = u.toNat := h
  simp [hexUnit?, hexDigit?_digitChar, hvalue]

/-- A character that stands for itself is read as its unit. -/
theorem units_printable {u : UInt16} {cs rest : List Char} {us : List UInt16}
    (hquote : u ≠ 0x22) (hbackslash : u ≠ 0x5C) (hlow : 0x20 ≤ u.toNat) (hhigh : u.toNat < 0x7F)
    (h : units cs = some (us, rest)) :
    units (Char.ofNat u.toNat :: cs) = some (u :: us, rest) := by
  have hnat : (Char.ofNat u.toNat).toNat = u.toNat := by
    have hvalid : u.toNat.isValidChar := .inl (by omega)
    rw [Char.ofNat, dif_pos hvalid]
    rfl
  have hne (c : Char) (hc : u.toNat ≠ c.toNat) : Char.ofNat u.toNat ≠ c := by
    intro h
    rw [← h, hnat] at hc
    exact hc rfl
  have hquote' := hne '\"' fun h => hquote (UInt16.toNat_inj.1 h)
  have hbackslash' := hne '\\' fun h => hbackslash (UInt16.toNat_inj.1 h)
  have hunits : Text.unitsOf (Char.ofNat u.toNat) = [u] := by
    rw [Text.unitsOf, hnat, if_pos (by omega)]
    simp
  have hplain : ¬ (Char.ofNat u.toNat = '\\' ∨ (Char.ofNat u.toNat).toNat < 0x20) := by
    rw [hnat]
    exact fun h => h.elim hbackslash' (by omega)
  rw [units]
  · rw [if_neg hplain, h, hunits]
    rfl
  · exact hquote'
  · exact fun _ _ _ _ _ hc => absurd hc hbackslash'
  · exact fun _ _ hc => absurd hc hbackslash'

/-- The text that stands for a unit is read as that unit. -/
theorem units_renderUnit (u : UInt16) {cs rest : List Char} {us : List UInt16}
    (h : units cs = some (us, rest)) :
    units (Text.renderUnit u ++ cs) = some (u :: us, rest) := by
  unfold Text.renderUnit
  split
  · rename_i hquote
    subst hquote
    simp [units, escape?, h]
  · split
    · rename_i hbackslash
      subst hbackslash
      simp [units, escape?, h]
    · split
      · rename_i hquote hbackslash hprintable
        rw [Bool.and_eq_true, decide_eq_true_eq, decide_eq_true_eq, UInt16.le_iff_toNat_le,
          UInt16.lt_iff_toNat_lt] at hprintable
        exact units_printable hquote hbackslash hprintable.1 hprintable.2 h
      · obtain ⟨a, b, c, d, hspelled, hvalue⟩ := exists_hexadecimal u.toNat_lt
        rw [hspelled]
        simp only [spelled, List.map_cons, List.map_nil, List.cons_append, List.nil_append]
        rw [units, hexUnit?_spelled hvalue, h]
        rfl

theorem text_render (t : Text) (rest : List Char) :
    ∃ cs, t.render ++ rest = '\"' :: cs ∧ text cs = some (t, rest) := by
  refine ⟨t.units.flatMap Text.renderUnit ++ '\"' :: rest, ?_, ?_⟩
  · rw [Text.render, List.cons_append, List.append_assoc, List.singleton_append]
  · have hunits (us : List UInt16) :
        units (us.flatMap Text.renderUnit ++ '\"' :: rest) = some (us, rest) := by
      induction us with
      | nil => rw [List.flatMap_nil, List.nil_append, units]
      | cons u us ih =>
        rw [List.flatMap_cons, List.append_assoc]
        exact units_renderUnit u ih
    rw [text, hunits]
    rfl

end Parser

end ChipEight.Json
