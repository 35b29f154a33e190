import ChipEight.Proofs.JsonStrings

namespace ChipEight.Json

open Numeral

namespace Parser

/-- Nothing at the head goes on with a number's digits. -/
def NoDigit (cs : List Char) : Prop := ∀ c, cs.head? = some c → decimalDigit? c = none

/-- Nothing at the head goes on with a number. -/
def Quiet (cs : List Char) : Prop :=
  ∀ c, cs.head? = some c → decimalDigit? c = none ∧ c ≠ '.' ∧ c ≠ 'e' ∧ c ≠ 'E'

theorem Quiet.noDigit {cs : List Char} (h : Quiet cs) : NoDigit cs := fun c hc => (h c hc).1

theorem digits_spelled (ds : List (Fin 10)) {rest : List Char} (h : NoDigit rest) :
    digits (spelled ds ++ rest) = (ds, rest) := by
  induction ds with
  | nil =>
    cases rest with
    | nil => rfl
    | cons c cs =>
      rw [spelled, List.map_nil, List.nil_append, digits, h c rfl]
  | cons d ds ih =>
    rw [spelled_cons, List.cons_append, digits, decimalDigit?_eq_some.2 rfl, ih]

theorem whole_numeral (n : Nat) {rest : List Char} (h : NoDigit rest) :
    whole (padded 1 10 n ++ rest) = some (n, rest) := by
  obtain ⟨d, ds, hspelled, hvalue, hzero⟩ := exists_numeral n
  have hfirst : ¬ (d = 0 ∧ ds ≠ []) := fun hd => hd.2 (hzero hd.1)
  have hnat : toNat (d :: ds) = n := hvalue
  rw [hspelled, whole, digits_spelled _ h]
  simp only
  rw [if_neg hfirst, hnat]

def fractionChars (ds : List (Fin 10)) : List Char := if ds.isEmpty then [] else '.' :: spelled ds

def exponentChars (e : Option Int) : List Char := e.elim [] fun e => 'e' :: renderInt e

theorem fraction_chars (ds : List (Fin 10)) {rest : List Char} (h : NoDigit rest)
    (hpoint : ∀ cs, rest ≠ '.' :: cs) : fraction (fractionChars ds ++ rest) = some (ds, rest) := by
  cases ds with
  | nil =>
    show fraction rest = _
    rw [fraction]
    exact hpoint
  | cons d ds =>
    show fraction ('.' :: (spelled (d :: ds) ++ rest)) = _
    rw [fraction, digits_spelled _ h]

theorem exponentDigits_numeral (negative : Bool) (n : Nat) {rest : List Char} (h : NoDigit rest) :
    exponentDigits negative (padded 1 10 n ++ rest) =
      some (some (if negative then -(n : Int) else n), rest) := by
  obtain ⟨d, ds, hspelled, hvalue, -⟩ := exists_numeral n
  have hnat : toNat (d :: ds) = n := hvalue
  rw [hspelled, exponentDigits, digits_spelled _ h]
  simp only
  rw [hnat]

theorem exponent_chars (e : Option Int) {rest : List Char} (h : Quiet rest) :
    exponent (exponentChars e ++ rest) = some (e, rest) := by
  cases e with
  | none =>
    show exponent rest = _
    cases rest with
    | nil => rfl
    | cons c cs =>
      obtain ⟨-, -, he, hE⟩ := h c rfl
      simp [exponent, he, hE]
  | some e =>
    cases e with
    | ofNat n =>
      show exponent ('e' :: (padded 1 10 n ++ rest)) = _
      have hdigits := exponentDigits_numeral false n h.noDigit
      obtain ⟨d, ds, hspelled, -, -⟩ := exists_numeral n
      rw [hspelled, spelled_cons, List.cons_append] at hdigits ⊢
      have hsign : digitChar d.val ≠ '+' ∧ digitChar d.val ≠ '-' :=
        (by decide : ∀ d : Fin 10, digitChar d.val ≠ '+' ∧ digitChar d.val ≠ '-') d
      simp [exponent, hsign, hdigits]
    | negSucc n =>
      show exponent ('e' :: '-' :: (padded 1 10 (n + 1) ++ rest)) = _
      rw [exponent, if_pos (.inl rfl)]
      exact exponentDigits_numeral true (n + 1) h.noDigit

theorem noDigit_exponentChars (e : Option Int) {rest : List Char} (h : Quiet rest) :
    NoDigit (exponentChars e ++ rest) := by
  cases e with
  | none => exact h.noDigit
  | some e =>
    intro c hc
    cases hc
    decide

theorem noPoint_exponentChars (e : Option Int) {rest : List Char} (h : Quiet rest)
    (cs : List Char) : exponentChars e ++ rest ≠ '.' :: cs := by
  cases e with
  | none =>
    rintro rfl
    exact (h '.' rfl).2.1 rfl
  | some e => nofun

theorem noDigit_fractionChars (ds : List (Fin 10)) {rest : List Char} (h : NoDigit rest) :
    NoDigit (fractionChars ds ++ rest) := by
  cases ds with
  | nil => exact h
  | cons d ds =>
    intro c hc
    cases hc
    decide

theorem unsigned_chars (negative : Bool) (w : Nat) (ds : List (Fin 10)) (e : Option Int)
    {rest : List Char} (h : Quiet rest) :
    unsigned negative (padded 1 10 w ++ (fractionChars ds ++ (exponentChars e ++ rest))) =
      some (⟨negative, w, ds, e⟩, rest) := by
  have hexponent := noDigit_exponentChars e h
  have hfraction := noDigit_fractionChars ds hexponent
  simp [unsigned, whole_numeral w hfraction,
    fraction_chars ds hexponent (noPoint_exponentChars e h), exponent_chars e h]

theorem render_eq (n : Number) :
    n.render = (if n.negative then ['-'] else []) ++
      (padded 1 10 n.whole ++ (fractionChars n.fraction ++ exponentChars n.exponent)) := by
  simp only [Number.render, List.append_assoc]
  rfl

theorem number_render (n : Number) {rest : List Char} (h : Quiet rest) :
    number (n.render ++ rest) = some (n, rest) := by
  obtain ⟨negative, w, ds, e⟩ := n
  have hunsigned := unsigned_chars negative w ds e h
  rw [render_eq]
  simp only [List.append_assoc]
  cases negative with
  | true => exact hunsigned
  | false =>
    obtain ⟨d, more, hspelled, -, -⟩ := exists_numeral w
    have hminus : digitChar d.val ≠ '-' :=
      (by decide : ∀ d : Fin 10, digitChar d.val ≠ '-') d
    simp only [Bool.false_eq_true, if_false, List.nil_append]
    rw [hspelled, spelled_cons] at hunsigned ⊢
    rw [← hunsigned, number]
    intro cs hcs
    exact hminus (List.cons.inj hcs).1

/-- The characters that a value can start with, as far as they matter where one is read. -/
def Starts (c : Char) : Prop := isBlank c = false ∧ c ≠ ']' ∧ c ≠ '\x7d'

instance (c : Char) : Decidable (Starts c) := inferInstanceAs (Decidable (_ ∧ _))

theorem head_number (n : Number) :
    ∃ c cs, n.render = c :: cs ∧ (c = '-' ∨ ∃ d : Fin 10, c = digitChar d.val) := by
  obtain ⟨d, ds, hspelled, -, -⟩ := exists_numeral n.whole
  rw [render_eq, hspelled]
  cases n.negative with
  | true => exact ⟨'-', _, rfl, .inl rfl⟩
  | false => exact ⟨digitChar d.val, _, rfl, .inr ⟨d, rfl⟩⟩

theorem head_chars (v : Json) : ∃ c cs, chars v = c :: cs ∧ Starts c := by
  cases v with
  | null => exact ⟨'n', _, rfl, by decide⟩
  | bool value =>
    cases value with
    | true => exact ⟨'t', _, rfl, by decide⟩
    | false => exact ⟨'f', _, rfl, by decide⟩
  | number n =>
    obtain ⟨c, cs, hrender, hc⟩ := head_number n
    refine ⟨c, cs, hrender, ?_⟩
    rcases hc with rfl | ⟨d, rfl⟩
    · decide
    · exact (by decide : ∀ d : Fin 10, Starts (digitChar d.val)) d
  | string t => exact ⟨'\"', _, rfl, by decide⟩
  | array vs => cases vs <;> exact ⟨'[', _, rfl, by decide⟩
  | object ms => cases ms <;> exact ⟨'\x7b', _, rfl, by decide⟩

theorem blanks_cons {c : Char} (h : isBlank c = false) (cs : List Char) :
    blanks (c :: cs) = c :: cs := by
  simp [blanks, h]

theorem blanks_of_starts {c : Char} (h : Starts c) (cs : List Char) : blanks (c :: cs) = c :: cs :=
  blanks_cons h.1 cs

theorem blanks_chars (v : Json) (rest : List Char) :
    blanks (chars v ++ rest) = chars v ++ rest := by
  obtain ⟨c, cs, hchars, hstarts⟩ := head_chars v
  rw [hchars]
  exact blanks_of_starts hstarts _

/-- A number is read as one once no other kind of value fits its first character. -/
theorem value_of_number (fuel : Nat) {c : Char} (cs : List Char)
    (hc : c = '-' ∨ ∃ d : Fin 10, c = digitChar d.val) :
    value (fuel + 1) (c :: cs) = (number (c :: cs)).map fun (n, cs) => (.number n, cs) := by
  have hother : c ∉ ['n', 't', 'f', '\"', '[', '\x7b'] := by
    rcases hc with rfl | ⟨d, rfl⟩
    · decide
    · exact (by decide : ∀ d : Fin 10, digitChar d.val ∉ ['n', 't', 'f', '\"', '[', '\x7b']) d
  simp only [List.mem_cons, List.not_mem_nil, or_false, not_or] at hother
  rw [value]
  all_goals
    intro rest heq
    have hhead := (List.cons.inj heq).1
    simp [hhead] at hother

theorem value_array {fuel : Nat} {cs : List Char} (hblanks : blanks cs = cs)
    (hfirst : ∀ rest, cs ≠ ']' :: rest) :
    value (fuel + 1) ('[' :: cs) = (elements fuel cs).map fun (vs, cs) => (.array vs, cs) := by
  rw [value, hblanks]
  split
  · exact absurd rfl (hfirst _)
  · rfl

theorem value_object {fuel : Nat} {cs : List Char} (hblanks : blanks cs = cs)
    (hfirst : ∀ rest, cs ≠ '\x7d' :: rest) :
    value (fuel + 1) ('\x7b' :: cs) = (members fuel cs).map fun (ms, cs) => (.object ms, cs) := by
  rw [value, hblanks]
  split
  · exact absurd rfl (hfirst _)
  · rfl

theorem quiet_cons {c : Char} (cs : List Char)
    (h : decimalDigit? c = none ∧ c ≠ '.' ∧ c ≠ 'e' ∧ c ≠ 'E') : Quiet (c :: cs) := by
  intro d hd
  cases hd
  exact h

theorem quiet_elementChars (vs : List Json) (rest : List Char) :
    Quiet (elementChars vs ++ rest) := by
  cases vs <;> exact quiet_cons _ (by decide)

theorem quiet_memberChars (ms : Members) (rest : List Char) : Quiet (memberChars ms ++ rest) := by
  cases ms <;> exact quiet_cons _ (by decide)

/-- The characters of a value are read as that value, and what follows them is left. -/
def Reads (v : Json) : Prop :=
  ∀ fuel rest, (chars v).length ≤ fuel → Quiet rest → value fuel (chars v ++ rest) = some (v, rest)

theorem elements_chars {vs : List Json} (hvs : ∀ w ∈ vs, Reads w) {v : Json} (hv : Reads v)
    {fuel : Nat} (rest : List Char) (h : (chars v).length + (elementChars vs).length ≤ fuel) :
    elements fuel (chars v ++ (elementChars vs ++ rest)) = some (v :: vs, rest) := by
  induction vs generalizing v fuel with
  | nil =>
    cases fuel with
    | zero => simp [elementChars] at h
    | succ fuel =>
      rw [elements, hv fuel _ (by simp [elementChars] at h; omega) (quiet_elementChars [] rest)]
      rfl
  | cons w ws ih =>
    cases fuel with
    | zero => simp [elementChars] at h
    | succ fuel =>
      simp only [elementChars, List.length_cons, List.length_append] at h
      have hw : Reads w := hvs w List.mem_cons_self
      have hfuel : (chars w).length + (elementChars ws).length ≤ fuel := by omega
      have hrest := ih (fun u hu => hvs u (List.mem_cons_of_mem w hu)) hw hfuel
      rw [elements, hv fuel _ (by omega) (quiet_elementChars _ rest)]
      show (elements fuel (blanks (chars w ++ elementChars ws ++ rest))).bind _ = _
      rw [List.append_assoc, blanks_chars, hrest]
      rfl

theorem members_chars {ms : Members} (hms : ∀ m ∈ ms, Reads m.2) (name : Text) {v : Json}
    (hv : Reads v) {fuel : Nat} (rest : List Char)
    (h : (chars v).length + (memberChars ms).length ≤ fuel) :
    members fuel (name.render ++ ':' :: (chars v ++ (memberChars ms ++ rest))) =
      some ((name, v) :: ms, rest) := by
  induction ms generalizing name v fuel with
  | nil =>
    obtain ⟨cs, hcs, htext⟩ := text_render name (':' :: (chars v ++ (memberChars [] ++ rest)))
    cases fuel with
    | zero => simp [memberChars] at h
    | succ fuel =>
      rw [hcs, members, htext]
      show (value fuel (blanks (chars v ++ _))).bind _ = _
      rw [blanks_chars, hv fuel _ (by simp [memberChars] at h; omega) (quiet_memberChars [] rest)]
      rfl
  | cons m ms ih =>
    obtain ⟨next, w⟩ := m
    obtain ⟨cs, hcs, htext⟩ :=
      text_render name (':' :: (chars v ++ (memberChars ((next, w) :: ms) ++ rest)))
    cases fuel with
    | zero => simp [memberChars] at h
    | succ fuel =>
      simp only [memberChars, List.length_cons, List.length_append] at h
      have hw : Reads w := hms (next, w) List.mem_cons_self
      have hfuel : (chars w).length + (memberChars ms).length ≤ fuel := by omega
      have hrest := ih (fun m hm => hms m (List.mem_cons_of_mem _ hm)) next hw hfuel
      rw [hcs, members, htext]
      show (value fuel (blanks (chars v ++ _))).bind _ = _
      rw [blanks_chars, hv fuel _ (by omega) (quiet_memberChars _ rest)]
      show (members fuel (blanks (next.render ++ ':' :: (chars w ++ memberChars ms) ++ rest))).bind _
        = _
      rw [List.append_assoc, List.cons_append, List.append_assoc]
      have hquote : blanks (next.render ++ ':' :: (chars w ++ (memberChars ms ++ rest))) =
          next.render ++ ':' :: (chars w ++ (memberChars ms ++ rest)) :=
        blanks_of_starts (c := '\"') (by decide) _
      rw [hquote, hrest]
      rfl

theorem reads_array {vs : List Json} (hvs : ∀ v ∈ vs, Reads v) : Reads (.array vs) := by
  intro fuel rest h _
  cases fuel with
  | zero => cases vs <;> simp [chars] at h
  | succ fuel =>
    cases vs with
    | nil => rfl
    | cons v vs =>
      simp only [chars, List.length_cons, List.length_append] at h
      show value (fuel + 1) ('[' :: (chars v ++ elementChars vs ++ rest)) = _
      rw [List.append_assoc]
      have hfirst (cs : List Char) : chars v ++ (elementChars vs ++ rest) ≠ ']' :: cs := by
        obtain ⟨c, more, hchars, hstarts⟩ := head_chars v
        rw [hchars]
        exact fun heq => hstarts.2.1 (List.cons.inj heq).1
      rw [value_array (blanks_chars v _) hfirst,
        elements_chars (fun w hw => hvs w (List.mem_cons_of_mem v hw)) (hvs v List.mem_cons_self)
          rest (by omega)]
      rfl

theorem reads_object {ms : Members} (hms : ∀ m ∈ ms, Reads m.2) : Reads (.object ms) := by
  intro fuel rest h _
  cases fuel with
  | zero => cases ms <;> simp [chars] at h
  | succ fuel =>
    cases ms with
    | nil => rfl
    | cons m ms =>
      obtain ⟨name, v⟩ := m
      simp only [chars, List.length_cons, List.length_append] at h
      show value (fuel + 1) ('\x7b' :: (name.render ++ ':' :: (chars v ++ memberChars ms) ++ rest)) = _
      rw [List.append_assoc, List.cons_append, List.append_assoc]
      have hv : Reads v := hms (name, v) List.mem_cons_self
      have hfuel : (chars v).length + (memberChars ms).length ≤ fuel := by omega
      have hmembers := members_chars (fun m hm => hms m (List.mem_cons_of_mem _ hm)) name hv rest
        hfuel
      have hblanks : blanks (name.render ++ ':' :: (chars v ++ (memberChars ms ++ rest))) =
          name.render ++ ':' :: (chars v ++ (memberChars ms ++ rest)) :=
        blanks_of_starts (c := '\"') (by decide) _
      rw [value_object hblanks nofun, hmembers]
      rfl

theorem reads (v : Json) : Reads v := by
  match v with
  | .null =>
    intro fuel rest h _
    cases fuel with
    | zero => simp [chars] at h
    | succ fuel => rfl
  | .bool value =>
    intro fuel rest h _
    cases fuel with
    | zero => cases value <;> simp [chars] at h
    | succ fuel => cases value <;> rfl
  | .number n =>
    intro fuel rest h hrest
    obtain ⟨c, cs, hrender, hc⟩ := head_number n
    have hnumber := number_render n hrest
    cases fuel with
    | zero => simp [chars, hrender] at h
    | succ fuel =>
      rw [chars, hrender, List.cons_append] at *
      rw [value_of_number fuel _ hc, hnumber]
      rfl
  | .string t =>
    intro fuel rest h _
    obtain ⟨cs, hcs, htext⟩ := text_render t rest
    cases fuel with
    | zero => simp [chars, Text.render] at h
    | succ fuel =>
      rw [chars, hcs, value, htext]
      rfl
  | .array vs => exact reads_array fun v _ => reads v
  | .object ms =>
    refine reads_object fun m hm => ?_
    have hmember : sizeOf m.2 < 1 + sizeOf ms := by
      have hm := List.sizeOf_lt_of_mem hm
      have hpair : sizeOf m = 1 + sizeOf m.1 + sizeOf m.2 := rfl
      omega
    exact reads m.2

end Parser

/-- The text of a value is a document with that value. -/
theorem parse_render (v : Json) : parse v.render = some v := by
  have hvalue := Parser.reads v (2 * (chars v).length + 2) [] (by omega) nofun
  have hblanks := Parser.blanks_chars v []
  rw [List.append_nil] at hvalue hblanks
  rw [parse, render, String.toList_ofList, Parser.document, hblanks, hvalue]
  rfl

/-- What a document says can be read off the characters that are written for it. -/
theorem parse_of_chars {document : String} {v : Json}
    (h : (parse document).map chars = some v.chars) : parse document = some v := by
  obtain ⟨w, hw, hchars⟩ := Option.map_eq_some_iff.1 h
  have hsame := parse_render w
  rw [render, hchars, ← render, parse_render] at hsame
  rw [hw, hsame]

end ChipEight.Json
