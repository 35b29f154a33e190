import ChipEight.Proofs.JsonRoundTrip

namespace ChipEight.Json

open Numeral

namespace Text

theorem toNat_ofNat {n : Nat} (h : n.isValidChar) : (Char.ofNat n).toNat = n := by
  rw [Char.ofNat, dif_pos h]
  rfl

theorem unitsOf_of_plain {u : UInt16} (hhigh : isHigh u = false) (hlow : isLow u = false) :
    unitsOf (Char.ofNat u.toNat) = [u] := by
  have hlt := u.toNat_lt
  rw [Bool.eq_false_iff, ne_eq, isHigh_iff] at hhigh
  rw [Bool.eq_false_iff, ne_eq, isLow_iff] at hlow
  have hvalid : u.toNat.isValidChar := by
    unfold Nat.isValidChar
    omega
  rw [unitsOf, toNat_ofNat hvalid, if_pos hlt, Nat.toUInt16_eq, UInt16.ofNat_toNat]

theorem unitsOf_pair {u v : UInt16} (hhigh : isHigh u = true) (hlow : isLow v = true) :
    unitsOf (pair u v) = [u, v] := by
  rw [isHigh_iff] at hhigh
  rw [isLow_iff] at hlow
  let n := 0x10000 + (u.toNat - 0xD800) * 0x400 + (v.toNat - 0xDC00)
  have hvalid : n.isValidChar := .inr (by omega)
  have hpair : (pair u v).toNat = n := toNat_ofNat hvalid
  have hu : 0xD800 + (n - 0x10000) / 0x400 = u.toNat := by omega
  have hv : 0xDC00 + (n - 0x10000) % 0x400 = v.toNat := by omega
  rw [unitsOf, hpair, if_neg (by omega)]
  simp only
  rw [hu, hv, Nat.toUInt16_eq, Nat.toUInt16_eq, UInt16.ofNat_toNat, UInt16.ofNat_toNat]

theorem flatMap_unitsOf {us : List UInt16} {cs : List Char} (h : chars? us = some cs) :
    cs.flatMap unitsOf = us := by
  fun_induction chars? us generalizing cs with
  | case1 =>
    cases h
    rfl
  | case2 u hsurrogate => cases h
  | case3 u hplain =>
    cases h
    obtain ⟨hhigh, hlow⟩ : isHigh u = false ∧ isLow u = false := by simpa using hplain
    rw [List.flatMap_cons, unitsOf_of_plain hhigh hlow]
    rfl
  | case4 u v us hhigh hlow ih =>
    obtain ⟨ds, hds, rfl⟩ := Option.map_eq_some_iff.1 h
    rw [List.flatMap_cons, unitsOf_pair hhigh hlow, ih hds]
    rfl
  | case5 => cases h
  | case6 => cases h
  | case7 u v us hhigh hlow ih =>
    obtain ⟨ds, hds, rfl⟩ := Option.map_eq_some_iff.1 h
    rw [List.flatMap_cons, unitsOf_of_plain (by simpa using hhigh) (by simpa using hlow), ih hds]
    rfl

/-- Units that are text are the units of that text. -/
theorem ofString_of_string? {t : Text} {s : String} (h : t.string? = some s) : ofString s = t := by
  obtain ⟨cs, hcs, rfl⟩ := Option.map_eq_some_iff.1 h
  rw [ofString, String.toList_ofList, flatMap_unitsOf hcs]

end Text

namespace Parser

variable {cs rest more : List Char}

/-- A reader that has left `rest` leaves it also if there is more behind it: either something is
left that has stopped the reader, or nothing in what follows goes on with a number. -/
def Stops (rest more : List Char) : Prop := rest = [] → Quiet more

theorem digits_append (h : Stops (digits cs).2 more) :
    digits (cs ++ more) = ((digits cs).1, (digits cs).2 ++ more) := by
  induction cs with
  | nil =>
    cases more with
    | nil => rfl
    | cons c more =>
      have hc : decimalDigit? c = none := (h rfl c rfl).1
      rw [List.nil_append, digits.eq_2, hc]
      rfl
  | cons c cs ih =>
    cases hc : decimalDigit? c with
    | none =>
      rw [List.cons_append, digits, digits, hc]
      rfl
    | some d =>
      rw [digits, hc] at h
      rw [List.cons_append, digits, digits, hc, ih h]

theorem whole_append {n : Nat} (h : whole cs = some (n, rest)) (hstops : Stops rest more) :
    whole (cs ++ more) = some (n, rest ++ more) := by
  unfold whole at h ⊢
  cases hd : digits cs with
  | mk ds left =>
    rw [hd] at h
    cases ds with
    | nil => cases h
    | cons d ds =>
      simp only at h
      split at h
      · cases h
      · rename_i hzero
        cases h
        rw [digits_append (by rw [hd]; exact hstops), hd]
        simp only
        rw [if_neg hzero]

theorem fraction_of_no_point (h : cs.head? ≠ some '.') : fraction cs = some ([], cs) := by
  rw [fraction]
  rintro cs rfl
  exact h rfl

theorem fraction_append {ds : List (Fin 10)} (h : fraction cs = some (ds, rest))
    (hstops : Stops rest more) : fraction (cs ++ more) = some (ds, rest ++ more) := by
  cases cs with
  | nil =>
    cases h
    refine fraction_of_no_point fun hpoint => ?_
    exact (hstops rfl '.' hpoint).2.1 rfl
  | cons c cs =>
    by_cases hc : c = '.'
    · subst hc
      rw [fraction] at h
      rw [List.cons_append, fraction]
      cases hd : digits cs with
      | mk ds' left =>
        rw [hd] at h
        cases ds' with
        | nil => cases h
        | cons d ds' =>
          cases h
          rw [digits_append (by rw [hd]; exact hstops), hd]
    · have hpoint : (c :: cs).head? ≠ some '.' := fun hhead => hc (Option.some_inj.1 hhead)
      rw [fraction_of_no_point hpoint] at h
      cases h
      exact fraction_of_no_point hpoint

theorem exponentDigits_append {negative : Bool} {e : Option Int}
    (h : exponentDigits negative cs = some (e, rest)) (hstops : Stops rest more) :
    exponentDigits negative (cs ++ more) = some (e, rest ++ more) := by
  unfold exponentDigits at h ⊢
  cases hd : digits cs with
  | mk ds left =>
    rw [hd] at h
    cases ds with
    | nil => cases h
    | cons d ds =>
      cases h
      rw [digits_append (by rw [hd]; exact hstops), hd]

theorem exponent_of_not_e {c : Char} (hc : ¬ (c = 'e' ∨ c = 'E')) :
    exponent (c :: cs) = some (none, c :: cs) := by
  simp [exponent, hc]

theorem exponent_of_no_sign {c sign : Char} (hc : c = 'e' ∨ c = 'E') (hplus : sign ≠ '+')
    (hminus : sign ≠ '-') (cs : List Char) :
    exponent (c :: sign :: cs) = exponentDigits false (sign :: cs) := by
  simp [exponent, hc, hplus, hminus]

theorem exponent_append {e : Option Int} (h : exponent cs = some (e, rest))
    (hstops : Stops rest more) : exponent (cs ++ more) = some (e, rest ++ more) := by
  cases cs with
  | nil =>
    cases h
    cases more with
    | nil => rfl
    | cons c more =>
      obtain ⟨-, -, he, hE⟩ := hstops rfl c rfl
      exact exponent_of_not_e (not_or.2 ⟨he, hE⟩)
  | cons c cs =>
    by_cases hc : c = 'e' ∨ c = 'E'
    · cases cs with
      | nil =>
        simp only [exponent, if_pos hc] at h
        cases h
      | cons sign cs =>
        by_cases hplus : sign = '+'
        · subst hplus
          rw [exponent, if_pos hc] at h
          simp only [List.cons_append]
          rw [exponent, if_pos hc]
          exact exponentDigits_append h hstops
        · by_cases hminus : sign = '-'
          · subst hminus
            rw [exponent, if_pos hc] at h
            simp only [List.cons_append]
            rw [exponent, if_pos hc]
            exact exponentDigits_append h hstops
          · rw [exponent_of_no_sign hc hplus hminus] at h
            simp only [List.cons_append]
            rw [exponent_of_no_sign hc hplus hminus]
            exact exponentDigits_append h hstops
    · rw [exponent_of_not_e hc] at h
      cases h
      exact exponent_of_not_e hc

theorem unsigned_append {negative : Bool} {n : Number} (h : unsigned negative cs = some (n, rest))
    (hstops : Stops rest more) : unsigned negative (cs ++ more) = some (n, rest ++ more) := by
  obtain ⟨⟨w, behind⟩, hw, h⟩ := Option.bind_eq_some_iff.1 h
  obtain ⟨⟨f, behind'⟩, hf, h⟩ := Option.bind_eq_some_iff.1 h
  obtain ⟨⟨e, behind''⟩, he, h⟩ := Option.bind_eq_some_iff.1 h
  cases h
  -- Nothing left in the middle of a number means that nothing is left behind it.
  have hstops' : Stops behind' more := by
    rintro rfl
    cases he
    exact hstops rfl
  have hstops'' : Stops behind more := by
    rintro rfl
    cases hf
    exact hstops' rfl
  simp [unsigned, whole_append hw hstops'', fraction_append hf hstops', exponent_append he hstops]

theorem number_of_ne {c : Char} (hc : c ≠ '-') (cs : List Char) :
    number (c :: cs) = unsigned false (c :: cs) := by
  rw [number]
  intro rest heq
  exact hc (List.cons.inj heq).1

theorem number_append {n : Number} (h : number cs = some (n, rest)) (hstops : Stops rest more) :
    number (cs ++ more) = some (n, rest ++ more) := by
  cases cs with
  | nil => cases h
  | cons c cs =>
    by_cases hc : c = '-'
    · subst hc
      exact unsigned_append h hstops
    · rw [number_of_ne hc] at h
      rw [List.cons_append, number_of_ne hc]
      exact unsigned_append h hstops

theorem units_append {us : List UInt16} (h : units cs = some (us, rest)) (more : List Char) :
    units (cs ++ more) = some (us, rest ++ more) := by
  fun_induction units cs generalizing us with
  | case1 => cases h
  | case2 cs =>
    cases h
    rw [List.cons_append, units]
  | case3 a b c d cs ih =>
    obtain ⟨u, hu, h⟩ := Option.bind_eq_some_iff.1 h
    obtain ⟨⟨vs, left⟩, hvs, h⟩ := Option.bind_eq_some_iff.1 h
    cases h
    simp only [List.cons_append]
    rw [units, hu, ih hvs]
    rfl
  | case4 e cs hlong ih =>
    obtain ⟨u, hu, h⟩ := Option.bind_eq_some_iff.1 h
    obtain ⟨⟨vs, left⟩, hvs, h⟩ := Option.bind_eq_some_iff.1 h
    cases h
    -- The escape of four digits is no short one, however many characters are behind it.
    have hshort : e ≠ 'u' := by
      rintro rfl
      cases hu
    simp only [List.cons_append]
    rw [units, hu, ih hvs]
    · rfl
    · exact fun _ _ _ _ _ he => absurd he hshort
  | case5 => cases h
  | case6 c cs hquote _ _ hplain ih =>
    obtain ⟨⟨vs, left⟩, hvs, h⟩ := Option.bind_eq_some_iff.1 h
    cases h
    have hbackslash : c ≠ '\\' := fun hc => hplain (.inl hc)
    rw [List.cons_append, units]
    · rw [if_neg hplain, ih hvs]
      rfl
    · exact hquote
    · exact fun _ _ _ _ _ hc => absurd hc hbackslash
    · exact fun _ _ hc => absurd hc hbackslash

theorem text_append {t : Text} (h : text cs = some (t, rest)) (more : List Char) :
    text (cs ++ more) = some (t, rest ++ more) := by
  obtain ⟨⟨us, left⟩, hus, h⟩ := Option.bind_eq_some_iff.1 h
  cases h
  rw [text, units_append hus]
  rfl

theorem blanks_append (h : blanks cs ≠ []) (more : List Char) :
    blanks (cs ++ more) = blanks cs ++ more := by
  unfold blanks at h ⊢
  rw [List.dropWhile_append, if_neg (by simpa using h)]

theorem blanks_append_of_cons {c : Char} (h : blanks cs = c :: rest) (more : List Char) :
    blanks (cs ++ more) = c :: (rest ++ more) := by
  rw [blanks_append (by simp [h]), h, List.cons_append]

/-- Where a reader that needs a character has read, the blanks end before the input does. -/
theorem blanks_append_of_read {α : Type} {f : List Char → Option α} {r : α} (hnil : f [] = none)
    (h : f (blanks cs) = some r) (more : List Char) : blanks (cs ++ more) = blanks cs ++ more := by
  refine blanks_append (fun hblanks => ?_) more
  rw [hblanks, hnil] at h
  cases h

theorem stops_of_blanks {c : Char} {behind : List Char} (h : blanks rest = c :: behind)
    (more : List Char) : Stops rest more := by
  rintro rfl
  cases h

theorem blanks_append_of_blank (h : blanks cs = []) (more : List Char) :
    blanks (cs ++ more) = blanks more := by
  unfold blanks at h ⊢
  rw [List.dropWhile_append, h]
  rfl

theorem head_of_number {r : Number × List Char} (h : number cs = some r) :
    ∃ c cs', cs = c :: cs' ∧ (c = '-' ∨ ∃ d : Fin 10, c = digitChar d.val) := by
  cases cs with
  | nil => cases h
  | cons c cs =>
    refine ⟨c, cs, rfl, ?_⟩
    by_cases hc : c = '-'
    · exact .inl hc
    · rw [number_of_ne hc] at h
      obtain ⟨w, hw, -⟩ := Option.bind_eq_some_iff.1 h
      rw [whole, digits] at hw
      cases hd : decimalDigit? c with
      | none =>
        rw [hd] at hw
        cases hw
      | some d => exact .inr ⟨d, decimalDigit?_eq_some.1 hd⟩

theorem value_nil (fuel : Nat) : value fuel [] = none := by
  cases fuel <;> rfl

theorem elements_nil (fuel : Nat) : elements fuel [] = none := by
  cases fuel with
  | zero => rfl
  | succ fuel =>
    rw [elements, value_nil]
    rfl

theorem members_nil (fuel : Nat) : members fuel [] = none := by
  cases fuel <;> rfl

theorem elements_bracket (fuel : Nat) (cs : List Char) : elements fuel (']' :: cs) = none := by
  cases fuel with
  | zero => rfl
  | succ fuel =>
    have hvalue : value fuel (']' :: cs) = none := by cases fuel <;> rfl
    rw [elements, hvalue]
    rfl

theorem members_brace (fuel : Nat) (cs : List Char) : members fuel ('\x7d' :: cs) = none := by
  cases fuel <;> rfl

theorem value_of_elements {fuel : Nat} {vs : List Json}
    (h : elements fuel (blanks cs) = some (vs, rest)) :
    value (fuel + 1) ('[' :: cs) = some (.array vs, rest) := by
  rw [value]
  split
  · rename_i hbracket
    rw [hbracket, elements_bracket] at h
    cases h
  · rw [h]
    rfl

theorem value_of_members {fuel : Nat} {ms : Members}
    (h : members fuel (blanks cs) = some (ms, rest)) :
    value (fuel + 1) ('\x7b' :: cs) = some (.object ms, rest) := by
  rw [value]
  split
  · rename_i hbrace
    rw [hbrace, members_brace] at h
    cases h
  · rw [h]
    rfl

section

variable {fuel : Nat} {left behind : List Char} {v : Json}

theorem elements_last (hv : value fuel cs = some (v, left)) (hblanks : blanks left = ']' :: rest) :
    elements (fuel + 1) cs = some ([v], rest) := by
  rw [elements, hv]
  simp only [Option.bind_eq_bind, Option.bind_some]
  rw [hblanks]
  rfl

theorem elements_next {vs : List Json} (hv : value fuel cs = some (v, left))
    (hblanks : blanks left = ',' :: behind)
    (hvs : elements fuel (blanks behind) = some (vs, rest)) :
    elements (fuel + 1) cs = some (v :: vs, rest) := by
  rw [elements, hv]
  simp only [Option.bind_eq_bind, Option.bind_some]
  rw [hblanks]
  simp only [hvs, Option.bind_some]
  rfl

variable {name : Text} {inner : List Char} (hname : text cs = some (name, left))
  (hcolon : blanks left = ':' :: inner) (hv : value fuel (blanks inner) = some (v, behind))

include hname hcolon hv

theorem members_last (hblanks : blanks behind = '\x7d' :: rest) :
    members (fuel + 1) ('\"' :: cs) = some ([(name, v)], rest) := by
  rw [members, hname]
  simp only [Option.bind_eq_bind, Option.bind_some]
  rw [hcolon]
  simp only [hv, Option.bind_some]
  rw [hblanks]
  rfl

theorem members_next {ms : Members} {next : List Char} (hblanks : blanks behind = ',' :: next)
    (hms : members fuel (blanks next) = some (ms, rest)) :
    members (fuel + 1) ('\"' :: cs) = some ((name, v) :: ms, rest) := by
  rw [members, hname]
  simp only [Option.bind_eq_bind, Option.bind_some]
  rw [hcolon]
  simp only [hv, Option.bind_some]
  rw [hblanks]
  simp only [hms, Option.bind_some]
  rfl

end

/-- What is read with `fuel` is read also with more of it, and with more input behind. -/
structure Continues (fuel : Nat) : Prop where
  value : ∀ {fuel' cs v rest more}, Parser.value fuel cs = some (v, rest) → fuel ≤ fuel' →
    Stops rest more → Parser.value fuel' (cs ++ more) = some (v, rest ++ more)
  elements : ∀ {fuel' cs vs rest} more, Parser.elements fuel cs = some (vs, rest) → fuel ≤ fuel' →
    Parser.elements fuel' (cs ++ more) = some (vs, rest ++ more)
  members : ∀ {fuel' cs ms rest} more, Parser.members fuel cs = some (ms, rest) → fuel ≤ fuel' →
    Parser.members fuel' (cs ++ more) = some (ms, rest ++ more)

section

variable {fuel fuel' : Nat} (hless : Continues fuel) (hfuel : fuel ≤ fuel')

include hless hfuel

theorem value_append {v : Json} (h : value (fuel + 1) cs = some (v, rest))
    (hstops : Stops rest more) : value (fuel' + 1) (cs ++ more) = some (v, rest ++ more) := by
  -- Every kind of value has an end of its own, except for numbers, the last case.
  unfold value at h
  split at h
  · cases h
    rfl
  · cases h
    rfl
  · cases h
    rfl
  · obtain ⟨⟨t, left⟩, ht, h⟩ := Option.map_eq_some_iff.1 h
    cases h
    rw [List.cons_append, value, text_append ht]
    rfl
  · split at h
    · rename_i hblanks
      cases h
      rw [List.cons_append, value, blanks_append_of_cons hblanks]
      rfl
    · obtain ⟨⟨vs, left⟩, hvs, h⟩ := Option.map_eq_some_iff.1 h
      cases h
      have hmore := hless.elements more hvs hfuel
      rw [← blanks_append_of_read (elements_nil fuel) hvs] at hmore
      exact value_of_elements hmore
  · split at h
    · rename_i hblanks
      cases h
      rw [List.cons_append, value, blanks_append_of_cons hblanks]
      rfl
    · obtain ⟨⟨ms, left⟩, hms, h⟩ := Option.map_eq_some_iff.1 h
      cases h
      have hmore := hless.members more hms hfuel
      rw [← blanks_append_of_read (members_nil fuel) hms] at hmore
      exact value_of_members hmore
  · obtain ⟨⟨n, left⟩, hn, h⟩ := Option.map_eq_some_iff.1 h
    cases h
    obtain ⟨c, cs, rfl, hc⟩ := head_of_number hn
    have hmore := number_append hn hstops
    rw [List.cons_append] at hmore ⊢
    rw [value_of_number _ _ hc, hmore]
    rfl

theorem elements_append {vs : List Json} (h : elements (fuel + 1) cs = some (vs, rest))
    (more : List Char) : elements (fuel' + 1) (cs ++ more) = some (vs, rest ++ more) := by
  obtain ⟨⟨v, left⟩, hv, h⟩ := Option.bind_eq_some_iff.1 h
  simp only at h
  split at h
  · rename_i hblanks
    obtain ⟨⟨ws, behind⟩, hws, h⟩ := Option.bind_eq_some_iff.1 h
    cases h
    have hmore := hless.elements more hws hfuel
    rw [← blanks_append_of_read (elements_nil fuel) hws] at hmore
    exact elements_next (hless.value hv hfuel (stops_of_blanks hblanks more))
      (blanks_append_of_cons hblanks more) hmore
  · rename_i hblanks
    cases h
    exact elements_last (hless.value hv hfuel (stops_of_blanks hblanks more))
      (blanks_append_of_cons hblanks more)
  · cases h

theorem members_append {ms : Members} (h : members (fuel + 1) cs = some (ms, rest))
    (more : List Char) : members (fuel' + 1) (cs ++ more) = some (ms, rest ++ more) := by
  unfold members at h
  split at h
  · cases h
  · rename_i n cs hn
    cases hn
    obtain ⟨⟨name, left⟩, hname, h⟩ := Option.bind_eq_some_iff.1 h
    simp only at h
    split at h
    · rename_i hcolon
      have hname := text_append hname more
      have hcolon := blanks_append_of_cons hcolon more
      obtain ⟨⟨v, behind⟩, hv, h⟩ := Option.bind_eq_some_iff.1 h
      simp only at h
      split at h
      · rename_i hblanks
        obtain ⟨⟨ws, next⟩, hws, h⟩ := Option.bind_eq_some_iff.1 h
        cases h
        have hvalue := hless.value hv hfuel (stops_of_blanks hblanks more)
        have hmore := hless.members more hws hfuel
        rw [← blanks_append_of_read (value_nil fuel) hv] at hvalue
        rw [← blanks_append_of_read (members_nil fuel) hws] at hmore
        exact members_next hname hcolon hvalue (blanks_append_of_cons hblanks more) hmore
      · rename_i hblanks
        cases h
        have hvalue := hless.value hv hfuel (stops_of_blanks hblanks more)
        rw [← blanks_append_of_read (value_nil fuel) hv] at hvalue
        exact members_last hname hcolon hvalue (blanks_append_of_cons hblanks more)
      · cases h
    · cases h
  · cases h

end

theorem continues (fuel : Nat) : Continues fuel := by
  induction fuel with
  | zero => exact ⟨nofun, nofun, nofun⟩
  | succ fuel ih =>
    -- More fuel than some is some fuel.
    have hsome {fuel' : Nat} (h : fuel + 1 ≤ fuel') : ∃ n, fuel' = n + 1 ∧ fuel ≤ n :=
      ⟨fuel' - 1, by omega, by omega⟩
    constructor
    · intro fuel' cs v rest more hread hfuel hstops
      obtain ⟨n, rfl, hn⟩ := hsome hfuel
      exact value_append ih hn hread hstops
    · intro fuel' cs vs rest more hread hfuel
      obtain ⟨n, rfl, hn⟩ := hsome hfuel
      exact elements_append ih hn hread more
    · intro fuel' cs ms rest more hread hfuel
      obtain ⟨n, rfl, hn⟩ := hsome hfuel
      exact members_append ih hn hread more

theorem document_eq_some {v : Json} : document cs = some v ↔
    ∃ rest, value (2 * cs.length + 2) (blanks cs) = some (v, rest) ∧ blanks rest = [] := by
  constructor
  · intro h
    unfold document at h
    split at h
    · rename_i w rest hv
      split at h
      · rename_i hblank
        cases h
        exact ⟨rest, hv, List.isEmpty_iff.1 hblank⟩
      · cases h
    · cases h
  · rintro ⟨rest, hv, hblank⟩
    rw [document, hv]
    simp only
    rw [hblank]
    rfl

/-- A character that ends a value before it: no blank, and nothing that goes on with a number. -/
def Ends (c : Char) : Prop :=
  isBlank c = false ∧ decimalDigit? c = none ∧ c ≠ '.' ∧ c ≠ 'e' ∧ c ≠ 'E'

instance (c : Char) : Decidable (Ends c) := inferInstanceAs (Decidable (_ ∧ _))

/-- What is a document by itself is read as that value wherever a value stands. -/
theorem value_of_document {v : Json} (h : document cs = some v) {c : Char} (hc : Ends c)
    (more : List Char) (fuel : Nat) (hfuel : 2 * cs.length + 2 ≤ fuel) :
    ∃ left, value fuel (blanks (cs ++ c :: more)) = some (v, left) ∧ blanks left = c :: more := by
  obtain ⟨rest, hv, hblank⟩ := document_eq_some.1 h
  refine ⟨rest ++ c :: more, ?_, ?_⟩
  · rw [blanks_append_of_read (value_nil _) hv]
    exact (continues _).value hv hfuel fun _ => quiet_cons more hc.2
  · rw [blanks_append_of_blank hblank, blanks_cons hc.1]

theorem value_eq_string {fuel : Nat} {t : Text} (h : value fuel cs = some (.string t, rest)) :
    ∃ inner, cs = '\"' :: inner ∧ text inner = some (t, rest) := by
  cases fuel with
  | zero => cases h
  | succ fuel =>
    unfold value at h
    split at h
    · cases h
    · cases h
    · cases h
    · obtain ⟨⟨t', left⟩, ht, h⟩ := Option.map_eq_some_iff.1 h
      cases h
      exact ⟨_, rfl, ht⟩
    · split at h
      · cases h
      · obtain ⟨_, _, h⟩ := Option.map_eq_some_iff.1 h
        cases h
    · split at h
      · cases h
      · obtain ⟨_, _, h⟩ := Option.map_eq_some_iff.1 h
        cases h
    · obtain ⟨_, _, h⟩ := Option.map_eq_some_iff.1 h
      cases h

/-- What is a string by itself is read as that name wherever a name stands. -/
theorem text_of_document {t : Text} (h : document cs = some (.string t)) (more : List Char) :
    ∃ inner left, blanks (cs ++ ':' :: more) = '\"' :: inner ∧ text inner = some (t, left) ∧
      blanks left = ':' :: more := by
  obtain ⟨rest, hv, hblank⟩ := document_eq_some.1 h
  obtain ⟨inner, hinner, ht⟩ := value_eq_string hv
  refine ⟨inner ++ ':' :: more, rest ++ ':' :: more, ?_, text_append ht _, ?_⟩
  · exact blanks_append_of_cons hinner _
  · rw [blanks_append_of_blank hblank, blanks_cons (by decide)]

end Parser

/-- A value as it may be written, with blanks, escapes and spellings of its own. -/
structure Source where
  text : String
  value : Json
  parse_text : parse text = some value

/-- A member as it may be written. -/
structure Entry where
  name : String
  nameSource : String
  value : Source
  parse_name : parse nameSource = some (.ofString name)

namespace Entry

def member (e : Entry) : String × Json := (e.name, e.value.value)

def text (e : Entry) : String := e.nameSource ++ ":" ++ e.value.text

/-- The name is written as the printer writes it. -/
def ofName (name : String) (value : Source) : Entry :=
  ⟨name, (ofString name).render, value, parse_render _⟩

end Entry

def arrayText (sources : List Source) : String :=
  "[" ++ ",".intercalate (sources.map Source.text) ++ "]"

def objectText (entries : List Entry) : String :=
  "\x7b" ++ ",".intercalate (entries.map Entry.text) ++ "\x7d"

namespace Parser

theorem elements_of_sources {sources : List Source} (hne : sources ≠ []) {fuel : Nat}
    (hfuel : 2 * (",".intercalate (sources.map Source.text)).toList.length + 3 ≤ fuel)
    (more : List Char) :
    elements fuel (blanks ((",".intercalate (sources.map Source.text)).toList ++ ']' :: more)) =
      some (sources.map Source.value, more) := by
  -- Each element uses up one unit of fuel, and its comma alone pays for two.
  induction sources generalizing fuel with
  | nil => exact absurd rfl hne
  | cons s sources ih =>
    obtain ⟨n, rfl⟩ : ∃ n, fuel = n + 1 := ⟨fuel - 1, by omega⟩
    cases sources with
    | nil =>
      simp only [List.map_cons, List.map_nil, String.intercalate_singleton] at hfuel ⊢
      obtain ⟨left, hv, hblanks⟩ :=
        value_of_document s.parse_text (by decide : Ends ']') more n (by omega)
      exact elements_last hv hblanks
    | cons t sources =>
      rw [List.map_cons] at ih
      simp only [List.map_cons, String.intercalate_cons_cons, String.toList_append,
        List.length_append, List.append_assoc, String.reduceToList, List.length_cons,
        List.cons_append, List.nil_append] at hfuel ⊢
      obtain ⟨left, hv, hblanks⟩ :=
        value_of_document s.parse_text (by decide : Ends ',') _ n (by omega)
      exact elements_next hv hblanks (ih nofun (by omega))

theorem members_of_entries {entries : List Entry} (hne : entries ≠ []) {fuel : Nat}
    (hfuel : 2 * (",".intercalate (entries.map Entry.text)).toList.length + 3 ≤ fuel)
    (more : List Char) :
    members fuel (blanks ((",".intercalate (entries.map Entry.text)).toList ++ '\x7d' :: more)) =
      some ((entries.map Entry.member).map fun (name, v) => (.ofString name, v), more) := by
  induction entries generalizing fuel with
  | nil => exact absurd rfl hne
  | cons e entries ih =>
    obtain ⟨n, rfl⟩ : ∃ n, fuel = n + 1 := ⟨fuel - 1, by omega⟩
    cases entries with
    | nil =>
      simp only [List.map_cons, List.map_nil, String.intercalate_singleton, Entry.text,
        String.toList_append, List.length_append, List.append_assoc, String.reduceToList,
        List.length_cons, List.cons_append, List.nil_append] at hfuel ⊢
      obtain ⟨inner, left, hquote, hname, hcolon⟩ := text_of_document e.parse_name _
      obtain ⟨behind, hv, hblanks⟩ :=
        value_of_document e.value.parse_text (by decide : Ends '\x7d') more n (by omega)
      rw [hquote]
      exact members_last hname hcolon hv hblanks
    | cons f entries =>
      rw [List.map_cons] at ih
      simp only [List.map_cons, String.intercalate_cons_cons, Entry.text, String.toList_append,
        List.length_append, List.append_assoc, String.reduceToList, List.length_cons,
        List.cons_append, List.nil_append] at hfuel ih ⊢
      obtain ⟨inner, left, hquote, hname, hcolon⟩ := text_of_document e.parse_name _
      obtain ⟨behind, hv, hblanks⟩ :=
        value_of_document e.value.parse_text (by decide : Ends ',') _ n (by omega)
      rw [hquote]
      exact members_next hname hcolon hv hblanks (ih nofun (by omega))

theorem document_of_elements {vs : List Json} (h : ∀ fuel, 2 * cs.length + 3 ≤ fuel →
    elements fuel (blanks (cs ++ [']'])) = some (vs, [])) :
    document ('[' :: (cs ++ [']'])) = some (.array vs) := by
  refine document_eq_some.2 ⟨[], ?_, rfl⟩
  have hfuel : 2 * ('[' :: (cs ++ [']'])).length + 2 = 2 * cs.length + 5 + 1 := by
    simp
    omega
  rw [blanks_cons (by decide), hfuel]
  exact value_of_elements (h _ (by omega))

theorem document_of_members {ms : Members} (h : ∀ fuel, 2 * cs.length + 3 ≤ fuel →
    members fuel (blanks (cs ++ ['\x7d'])) = some (ms, [])) :
    document ('\x7b' :: (cs ++ ['\x7d'])) = some (.object ms) := by
  refine document_eq_some.2 ⟨[], ?_, rfl⟩
  have hfuel : 2 * ('\x7b' :: (cs ++ ['\x7d'])).length + 2 = 2 * cs.length + 5 + 1 := by
    simp
    omega
  rw [blanks_cons (by decide), hfuel]
  exact value_of_members (h _ (by omega))

end Parser

/-- Sources between brackets are an array of what they say, whatever their own blanks and
spellings are. -/
theorem parse_arrayText (sources : List Source) :
    parse (arrayText sources) = some (.array (sources.map Source.value)) := by
  have hchars : (arrayText sources).toList =
      '[' :: ((",".intercalate (sources.map Source.text)).toList ++ [']']) := by
    simp [arrayText]
  rw [parse, hchars]
  cases sources with
  | nil => rfl
  | cons s sources =>
    exact Parser.document_of_elements fun fuel hfuel =>
      Parser.elements_of_sources (List.cons_ne_nil s sources) hfuel []

/-- Entries between braces are an object of what they say. -/
theorem parse_objectText (entries : List Entry) :
    parse (objectText entries) = some (.record (entries.map Entry.member)) := by
  have hchars : (objectText entries).toList =
      '\x7b' :: ((",".intercalate (entries.map Entry.text)).toList ++ ['\x7d']) := by
    simp [objectText]
  rw [parse, hchars]
  cases entries with
  | nil => rfl
  | cons e entries =>
    exact Parser.document_of_members fun fuel hfuel =>
      Parser.members_of_entries (List.cons_ne_nil e entries) hfuel []

end ChipEight.Json
