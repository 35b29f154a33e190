import ChipEight.CommandLine
import ChipEight.Proofs.Numerals

namespace ChipEight.CommandLine

open Numeral

/-- A plus sign is no part of what comes behind it. On its own it is what there is to read. -/
def unsigned : List Char → List Char
  | '+' :: c :: cs => c :: cs
  | cs => cs

/-- How characters read as a count of 64 bits. Of two errors the one further left is reported. -/
inductive Counts : List Char → Except CountError Nat → Prop
  | empty : Counts [] (.error .empty)
  | number {ds : List (Fin 10)} (nonempty : ds ≠ []) (fits : valueOf ds < UInt64.size) :
    Counts (spelled ds) (.ok (valueOf ds))
  | invalidDigit {ds : List (Fin 10)} {c : Char} (rest : List Char)
    (fits : valueOf ds < UInt64.size) (other : ∀ d : Fin 10, c ≠ digitChar d) :
    Counts (spelled ds ++ c :: rest) (.error .invalidDigit)
  | overflow {ds : List (Fin 10)} {d : Fin 10} (rest : List Char)
    (fits : valueOf ds < UInt64.size) (exceeds : UInt64.size ≤ valueOf (ds ++ [d])) :
    Counts (spelled (ds ++ [d]) ++ rest) (.error .overflow)

variable {ds : List (Fin 10)} {d : Fin 10}

theorem countFrom_digit (fits : valueOf (ds ++ [d]) < countBound) (rest : List Char) :
    countFrom (valueOf ds) (digitChar d :: rest) = countFrom (valueOf (ds ++ [d])) rest := by
  rw [valueOf_concat] at fits ⊢
  simp only [countFrom, decimalDigit?_eq_some.2 rfl, if_pos fits]

theorem countFrom_exceeding (exceeds : countBound ≤ valueOf (ds ++ [d])) (rest : List Char) :
    countFrom (valueOf ds) (digitChar d :: rest) = .error .overflow := by
  rw [valueOf_concat] at exceeds
  simp only [countFrom, decimalDigit?_eq_some.2 rfl, if_neg (Nat.not_lt.2 exceeds)]

theorem countFrom_other {c : Char} (other : ∀ d : Fin 10, c ≠ digitChar d) (n : Nat)
    (rest : List Char) : countFrom n (c :: rest) = .error .invalidDigit := by
  have hnone : decimalDigit? c = none := by
    cases h : decimalDigit? c with
    | none => rfl
    | some d => exact absurd (decimalDigit?_eq_some.1 h) (other d)
  rw [countFrom, hnone]

/-- Where the reading stands behind some digits. -/
theorem countFrom_spelled (read : List (Fin 10)) (fits : valueOf (read ++ ds) < countBound)
    (rest : List Char) :
    countFrom (valueOf read) (spelled ds ++ rest) = countFrom (valueOf (read ++ ds)) rest := by
  induction ds generalizing read with
  | nil => rw [List.append_nil]; rfl
  | cons d ds ih =>
    rw [List.append_cons] at fits ⊢
    have hfirst : valueOf (read ++ [d]) < countBound :=
      Nat.lt_of_le_of_lt (valueOf_le_append (by decide) _ ds) fits
    rw [spelled_cons, List.cons_append, countFrom_digit hfirst]
    exact ih (read ++ [d]) fits

/-- The reading ends well, at a character that is no digit or at one that has no room. -/
theorem counts_countFrom (read : List (Fin 10)) (fits : valueOf read < countBound)
    (cs : List Char) (nonempty : read ≠ [] ∨ cs ≠ []) :
    Counts (spelled read ++ cs) (countFrom (valueOf read) cs) := by
  induction cs generalizing read with
  | nil =>
    rw [List.append_nil]
    exact .number (nonempty.resolve_right fun h => h rfl) fits
  | cons c cs ih =>
    by_cases hc : ∃ d : Fin 10, c = digitChar d
    · obtain ⟨d, rfl⟩ := hc
      have hspelled : spelled read ++ digitChar d :: cs = spelled (read ++ [d]) ++ cs := by
        rw [spelled_concat, List.append_cons]
      rw [hspelled]
      by_cases hd : valueOf (read ++ [d]) < countBound
      · rw [countFrom_digit hd]
        exact ih (read ++ [d]) hd (.inl (List.concat_ne_nil _ _))
      · have exceeds := Nat.not_lt.1 hd
        rw [countFrom_exceeding exceeds]
        exact .overflow cs fits exceeds
    · have other (d : Fin 10) (h : c = digitChar d) : False := hc ⟨d, h⟩
      rw [countFrom_other other]
      exact .invalidDigit cs fits other

theorem countFrom_of_counts {cs : List Char} {r : Except CountError Nat} (h : Counts cs r)
    (nonempty : cs ≠ []) : countFrom 0 cs = r := by
  cases h with
  | empty => exact absurd rfl nonempty
  | @number ds _ fits =>
    have hread := countFrom_spelled [] fits []
    rw [List.append_nil] at hread
    exact hread
  | invalidDigit rest fits other =>
    exact (countFrom_spelled [] fits _).trans (countFrom_other other _ rest)
  | @overflow ds d rest fits exceeds =>
    rw [spelled_concat, List.append_assoc]
    exact (countFrom_spelled [] fits _).trans (countFrom_exceeding exceeds rest)

theorem counts_nil {cs : List Char} {r : Except CountError Nat} (h : Counts cs r)
    (hcs : cs = []) : r = .error .empty := by
  cases h with
  | empty => rfl
  | number nonempty => exact absurd (List.map_eq_nil_iff.1 hcs) nonempty
  | invalidDigit => simp at hcs
  | overflow => simp [spelled_concat] at hcs

theorem count?_of_nonempty {cs : List Char} (nonempty : cs ≠ []) :
    unsigned cs ≠ [] ∧ count? cs = countFrom 0 (unsigned cs) := by
  cases cs with
  | nil => exact absurd rfl nonempty
  | cons c cs =>
    by_cases hc : c = '+'
    · subst hc
      cases cs with
      | nil => exact ⟨nonempty, (countFrom_other (by decide) 0 []).symm⟩
      | cons c cs => exact ⟨List.cons_ne_nil c cs, rfl⟩
    · have hunsigned : unsigned (c :: cs) = c :: cs := by
        simp [unsigned, hc]
      have hcount : count? (c :: cs) = countFrom 0 (c :: cs) := by
        simp [count?, hc]
      rw [hunsigned]
      exact ⟨nonempty, hcount⟩

/-- The argument for the number of frames is read as a count. -/
theorem count?_eq_iff {cs : List Char} {r : Except CountError Nat} :
    count? cs = r ↔ Counts (unsigned cs) r := by
  by_cases hcs : cs = []
  · subst hcs
    constructor
    · rintro rfl
      exact .empty
    · intro h
      exact (counts_nil h rfl).symm
  · obtain ⟨nonempty, hcount⟩ := count?_of_nonempty hcs
    rw [hcount]
    constructor
    · rintro rfl
      exact counts_countFrom [] (by decide) (unsigned cs) (.inr nonempty)
    · intro h
      exact countFrom_of_counts h nonempty

end ChipEight.CommandLine
