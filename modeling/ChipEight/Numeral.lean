namespace ChipEight.Numeral

/-- The digits of `n`, most significant first; zero is the single digit 0. -/
def digits (base n : Nat) : List Nat :=
  if _ : 2 ≤ base ∧ base ≤ n then digits base (n / base) ++ [n % base] else [n]
termination_by n
decreasing_by exact Nat.div_lt_self (by omega) (by omega)

/-- The number that a list of digits stands for. -/
def ofDigits (base : Nat) (ds : List Nat) : Nat :=
  ds.foldl (fun n d => n * base + d) 0

/-- Digits above nine are upper-case letters. -/
def digitChar (d : Nat) : Char :=
  if d < 10 then Char.ofNat (48 + d) else Char.ofNat (55 + d)

/-- Reads a decimal digit. -/
def decimalDigit? (c : Char) : Option (Fin 10) :=
  if h : 48 ≤ c.toNat ∧ c.toNat < 58 then some ⟨c.toNat - 48, by omega⟩ else none

/-- Reads a hexadecimal digit of either case. -/
def hexDigit? (c : Char) : Option (Fin 16) :=
  if h : 48 ≤ c.toNat ∧ c.toNat < 58 then some ⟨c.toNat - 48, by omega⟩
  else if h : 65 ≤ c.toNat ∧ c.toNat < 71 then some ⟨c.toNat - 55, by omega⟩
  else if h : 97 ≤ c.toNat ∧ c.toNat < 103 then some ⟨c.toNat - 87, by omega⟩
  else none

/-- Zeros in front up to the given number of places; longer numerals stay as they are. -/
def padded (places base n : Nat) : List Char :=
  let ds := digits base n
  (List.replicate (places - ds.length) 0 ++ ds).map digitChar

def decimal (n : Nat) : String := String.ofList (padded 1 10 n)

/-- Upper-case hexadecimal behind `0x`, in at least the given number of places. -/
def hex (places n : Nat) : String := "0x" ++ String.ofList (padded places 16 n)

theorem ofDigits_append (base : Nat) (ds : List Nat) (d : Nat) :
    ofDigits base (ds ++ [d]) = ofDigits base ds * base + d := by
  simp [ofDigits]

/-- A numeral determines its number, so two numbers never share one. -/
theorem ofDigits_digits (base n : Nat) : ofDigits base (digits base n) = n := by
  fun_induction digits base n with
  | case1 n h ih => rw [ofDigits_append, ih, Nat.div_add_mod']
  | case2 n h => simp [ofDigits]

theorem digits_lt {base n : Nat} (hb : 2 ≤ base) : ∀ d ∈ digits base n, d < base := by
  fun_induction digits base n with
  | case1 n h ih =>
    intro d hd
    rcases List.mem_append.1 hd with hd | hd
    · exact ih d hd
    · rw [List.mem_singleton.1 hd]
      exact Nat.mod_lt _ (by omega)
  | case2 n h =>
    intro d hd
    rw [List.mem_singleton.1 hd]
    omega

end ChipEight.Numeral
