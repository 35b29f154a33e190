namespace ChipEight.Nibble

/-- Two nibbles as a byte. Bits of either argument that do not fit are lost. -/
def byte (high low : UInt8) : UInt8 := (high <<< 4) ||| (low &&& 0xF)

/-- Three nibbles as an address. The arguments overlap where one is longer than four bits. -/
def address (high middle low : UInt8) : UInt16 :=
  (high.toUInt16 <<< 8) ||| (middle.toUInt16 <<< 4) ||| low.toUInt16

/-- The nibble of a word that starts at a bit. -/
def ofWord (w : UInt16) (bit : UInt16) : UInt8 := ((w >>> bit) &&& 0xF).toUInt8

theorem toNat_ofWord (w : UInt16) {bit : UInt16} (h : bit.toNat < 16) :
    (ofWord w bit).toNat = w.toNat >>> bit.toNat % 16 := by
  have hand (n : Nat) : n &&& (0xF : UInt16).toNat = n % 16 := Nat.and_two_pow_sub_one_eq_mod n 4
  rw [ofWord, UInt16.toNat_toUInt8, UInt16.toNat_and, hand, UInt16.toNat_shiftRight,
    Nat.mod_eq_of_lt h]
  omega

theorem toNat_byte {high low : UInt8} (hh : high.toNat < 16) (hl : low.toNat < 16) :
    (byte high low).toNat = high.toNat * 16 + low.toNat := by
  have hand : low.toNat &&& (0xF : UInt8).toNat = low.toNat % 16 :=
    Nat.and_two_pow_sub_one_eq_mod _ 4
  have hhigh : (high <<< 4).toNat = high.toNat <<< 4 := by
    rw [UInt8.toNat_shiftLeft]
    refine Nat.mod_eq_of_lt (show high.toNat <<< 4 < 256 from ?_)
    rw [Nat.shiftLeft_eq]
    omega
  rw [byte, UInt8.toNat_or, UInt8.toNat_and, hhigh, hand, Nat.mod_eq_of_lt hl,
    ← Nat.shiftLeft_add_eq_or_of_lt hl, Nat.shiftLeft_eq]

theorem toNat_address {high middle low : UInt8} (hh : high.toNat < 16) (hm : middle.toNat < 16)
    (hl : low.toNat < 16) :
    (address high middle low).toNat = high.toNat * 256 + middle.toNat * 16 + low.toNat := by
  have hhigh : (high.toUInt16 <<< 8).toNat = high.toNat <<< 8 := by
    rw [UInt16.toNat_shiftLeft, UInt8.toNat_toUInt16]
    refine Nat.mod_eq_of_lt (show high.toNat <<< 8 < 65536 from ?_)
    rw [Nat.shiftLeft_eq]
    omega
  have hmiddle : (middle.toUInt16 <<< 4).toNat = middle.toNat <<< 4 := by
    rw [UInt16.toNat_shiftLeft, UInt8.toNat_toUInt16]
    refine Nat.mod_eq_of_lt (show middle.toNat <<< 4 < 65536 from ?_)
    rw [Nat.shiftLeft_eq]
    omega
  have hlt : middle.toNat <<< 4 < 256 := by
    rw [Nat.shiftLeft_eq]
    omega
  have hupper : high.toNat <<< 8 + middle.toNat <<< 4 = (high.toNat * 16 + middle.toNat) <<< 4 := by
    simp only [Nat.shiftLeft_eq]
    omega
  rw [address, UInt16.toNat_or, UInt16.toNat_or, hhigh, hmiddle, UInt8.toNat_toUInt16,
    ← Nat.shiftLeft_add_eq_or_of_lt hlt, hupper, ← Nat.shiftLeft_add_eq_or_of_lt hl,
    Nat.shiftLeft_eq]
  omega

/-- Joined again, the last nibbles of a word are what an instruction has as an address or a byte. -/
theorem join_ofWord (w : UInt16) :
    (address (ofWord w 8) (ofWord w 4) (ofWord w 0)).toNat = w.toNat % 4096 ∧
    (byte (ofWord w 4) (ofWord w 0)).toNat = w.toNat % 256 := by
  have hhigh : (ofWord w 8).toNat = w.toNat / 256 % 16 := by
    rw [toNat_ofWord w (by decide), Nat.shiftRight_eq_div_pow]
    rfl
  have hmiddle : (ofWord w 4).toNat = w.toNat / 16 % 16 := by
    rw [toNat_ofWord w (by decide), Nat.shiftRight_eq_div_pow]
    rfl
  have hlow : (ofWord w 0).toNat = w.toNat % 16 := toNat_ofWord w (by decide)
  rw [toNat_address (by omega) (by omega) (by omega), toNat_byte (by omega) (by omega)]
  omega

end ChipEight.Nibble
