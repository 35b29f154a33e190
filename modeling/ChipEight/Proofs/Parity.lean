import ChipEight.Proofs.Sprites
import Mathlib.Data.List.Induction

namespace ChipEight

namespace Display

/-- What a caller can do to a display. -/
inductive Call
  | plot (x : Column) (y : Row) (value : UInt8)
  | clear
  deriving DecidableEq

/-- The call is for this pixel and has an odd value. -/
def Call.flips (x : Column) (y : Row) : Call → Bool
  | .plot px py value => px = x ∧ py = y ∧ value.toNat % 2 = 1
  | .clear => false

/-- The calls behind the last clear. -/
def sinceClear (calls : List Call) : List Call :=
  (calls.reverse.takeWhile (· ≠ .clear)).reverse

/-- How often a pixel has been flipped since the display was last clear. -/
def flips (x : Column) (y : Row) (calls : List Call) : Nat :=
  (sinceClear calls).countP (Call.flips x y)

def perform (call : Call) (d : Display) : Display :=
  match call with
  | .plot x y value => (d.plot x y value).1
  | .clear => .blank

def after (calls : List Call) (d : Display) : Display :=
  calls.foldl (fun d call => d.perform call) d

/-- The pixels in row-major order, a byte for each. -/
def bytes (d : Display) : Vector UInt8 2048 :=
  Vector.ofFn fun i => ((d.pixelAt? i).getD false).toUInt8

variable {d : Display} {past : List Call} {x px : Column} {y py : Row} {value : UInt8}

theorem index_lt (x : Column) (y : Row) : index x y < 2048 := by
  unfold index
  omega

/-- Rows do not overlap. -/
theorem index_inj : index px py = index x y ↔ px = x ∧ py = y := by
  have hpx := px.isLt
  have hx := x.isLt
  rw [Fin.ext_iff, Fin.ext_iff]
  unfold index
  omega

theorem exists_index {i : Nat} (h : i < 2048) : ∃ (x : Column) (y : Row), i = index x y :=
  ⟨⟨i % 64, Nat.mod_lt i (by decide)⟩, ⟨i / 64, by omega⟩, (Nat.mod_add_div i 64).symm⟩

theorem pixelAt?_index (d : Display) (x : Column) (y : Row) :
    d.pixelAt? (index x y) = some (d.pixel x y) := by
  have hx := x.isLt
  have hcolumn : index x y % 64 = x.val := by
    unfold index
    omega
  have hrow : index x y / 64 = y.val := by
    unfold index
    omega
  rw [pixelAt?, dif_pos (index_lt x y)]
  simp only [hcolumn, hrow, Fin.eta]

theorem getElem_bytes (d : Display) (x : Column) (y : Row) (h : index x y < 2048) :
    d.bytes[index x y] = (d.pixel x y).toUInt8 := by
  simp only [bytes, Vector.getElem_ofFn, pixelAt?_index, Option.getD_some]

theorem bytes_blank : blank.bytes = Vector.replicate 2048 0 := by
  apply Vector.ext
  intro i hi
  obtain ⟨x, y, rfl⟩ := exists_index hi
  rw [getElem_bytes, pixel_blank, Vector.getElem_replicate]
  rfl

theorem odd_iff : value % 2 = 1 ↔ value.toNat % 2 = 1 := by
  rw [← UInt8.toNat_inj, UInt8.toNat_mod]
  exact Iff.rfl

theorem meets_dot (d : Display) (x : Column) (y : Row) : d.meets (dot x y) = d.pixel x y := by
  rw [Bool.eq_iff_iff, meets_eq_true]
  constructor
  · rintro ⟨px, py, hlit, hdot⟩
    rw [pixel_dot, Bool.and_eq_true, decide_eq_true_iff, decide_eq_true_iff] at hdot
    obtain ⟨rfl, rfl⟩ := hdot
    exact hlit
  · intro hlit
    exact ⟨x, y, hlit, by simp⟩

/-- A plot flips its own pixel at most. -/
theorem pixel_plot (d : Display) (x px : Column) (y py : Row) (value : UInt8) :
    (d.plot x y value).1.pixel px py =
      (d.pixel px py ^^ (Call.plot x y value).flips px py) := by
  rw [plot, stamp]
  split
  · rename_i hodd
    rw [odd_iff] at hodd
    simp only [pixel_xor, pixel_dot, Call.flips, hodd, and_true, Bool.decide_and, eq_comm]
  · rename_i heven
    rw [odd_iff] at heven
    simp only [pixel_xor, pixel_blank, Call.flips, heven, and_false, decide_false]

/-- It tells whether it turned its pixel off. -/
theorem hit_plot (d : Display) (x : Column) (y : Row) (value : UInt8) :
    (d.plot x y value).2 = (d.pixel x y && decide (value.toNat % 2 = 1)) := by
  rw [plot, stamp]
  split
  · rename_i hodd
    rw [meets_dot, decide_eq_true (odd_iff.1 hodd), Bool.and_true]
  · rename_i heven
    rw [meets_blank, decide_eq_false (mt odd_iff.2 heven), Bool.and_false]

theorem flips_clear (x : Column) (y : Row) (past : List Call) :
    flips x y (past ++ [.clear]) = 0 := by
  simp [flips, sinceClear]

theorem flips_plot (x px : Column) (y py : Row) (value : UInt8) (past : List Call) :
    flips x y (past ++ [.plot px py value]) =
      flips x y past + ((Call.plot px py value).flips x y).toNat := by
  cases h : (Call.plot px py value).flips x y <;> simp [flips, sinceClear, h]

/-- A pixel is lit if it has been flipped an odd number of times since the display was last
clear. -/
def Recalls (d : Display) (past : List Call) : Prop :=
  ∀ x y, d.pixel x y = decide (flips x y past % 2 = 1)

theorem recalls_blank : blank.Recalls [] := pixel_blank

theorem Recalls.perform (h : d.Recalls past) (call : Call) :
    (d.perform call).Recalls (past ++ [call]) := by
  intro x y
  cases call with
  | clear =>
    rw [flips_clear]
    exact pixel_blank x y
  | plot px py value =>
    show (d.plot px py value).1.pixel x y = _
    rw [pixel_plot, h, flips_plot]
    rcases Nat.mod_two_eq_zero_or_one (flips x y past) with hcount | hcount
    · cases (Call.plot px py value).flips x y <;> simp [Nat.add_mod, hcount]
    · cases (Call.plot px py value).flips x y <;> simp [Nat.add_mod, hcount]

theorem recalls_after (calls : List Call) : (blank.after calls).Recalls calls := by
  induction calls using List.reverseRecOn with
  | nil => exact recalls_blank
  | append_singleton past call ih =>
    rw [after, List.foldl_append]
    exact ih.perform call

end Display

namespace Checked

open Display

/-- Flips the byte of a pixel by the last bit of a value. Tells whether that turned a one into a
zero. -/
def setPixel (bytes : Vector UInt8 2048) (x y : Nat) (value : UInt8) :
    Option (Vector UInt8 2048 × Bool) :=
  if h : index x y < 2048 then
    let bit := value &&& 1
    let before := bytes[index x y]
    some (bytes.set (index x y) (before ^^^ bit), before = 1 && bit = 1)
  else none

/-- Makes calls one after the other, on bytes. -/
def paint : Vector UInt8 2048 → List Call → Option (Vector UInt8 2048)
  | bytes, [] => some bytes
  | bytes, .plot x y value :: calls =>
    (setPixel bytes x y value).bind fun painted => paint painted.1 calls
  | _, .clear :: calls => paint (Vector.replicate 2048 0) calls

/-- On a byte that is zero or one, the last bit of a value does what its parity says. -/
theorem xor_lastBit (lit : Bool) (value : UInt8) :
    lit.toUInt8 ^^^ (value &&& 1) = (lit ^^ decide (value.toNat % 2 = 1)).toUInt8 ∧
      decide (value &&& 1 = 1) = decide (value.toNat % 2 = 1) := by
  have hbit : (value &&& 1).toNat = value.toNat % 2 := by
    rw [UInt8.toNat_and]
    exact Nat.and_one_is_mod value.toNat
  rcases Nat.mod_two_eq_zero_or_one value.toNat with h | h
  · have hzero : value &&& 1 = 0 := UInt8.toNat_inj.1 (hbit.trans h)
    rw [hzero, h]
    cases lit <;> decide
  · have hone : value &&& 1 = 1 := UInt8.toNat_inj.1 (hbit.trans h)
    rw [hone, h]
    cases lit <;> decide

/-- Byte by byte a plot comes to the same, and the bytes stay zero or one. -/
theorem setPixel_eq (d : Display) (x : Column) (y : Row) (value : UInt8) :
    setPixel d.bytes x y value = some ((d.plot x y value).1.bytes, (d.plot x y value).2) := by
  obtain ⟨hbyte, hbit⟩ := xor_lastBit (d.pixel x y) value
  have hlit : decide ((d.pixel x y).toUInt8 = 1) = d.pixel x y := by
    cases d.pixel x y <;> rfl
  rw [setPixel, dif_pos (index_lt x y)]
  simp only [getElem_bytes, hbyte, hbit, hlit, ← hit_plot]
  refine congrArg (fun bytes => some (bytes, _)) ?_
  apply Vector.ext
  intro i hi
  obtain ⟨px, py, rfl⟩ := exists_index hi
  rw [Vector.getElem_set, getElem_bytes, getElem_bytes, pixel_plot]
  by_cases hsame : x = px ∧ y = py
  · obtain ⟨rfl, rfl⟩ := hsame
    simp [Call.flips]
  · rw [if_neg fun h => hsame (index_inj.1 h)]
    have hother : (Call.plot x y value).flips px py = false := by
      rw [Call.flips, decide_eq_false_iff_not]
      exact fun h => hsame ⟨h.1, h.2.1⟩
    rw [hother, Bool.xor_false]

theorem paint_eq (d : Display) (calls : List Call) :
    paint d.bytes calls = some (d.after calls).bytes := by
  induction calls generalizing d with
  | nil => rfl
  | cons call calls ih =>
    cases call with
    | plot x y value =>
      rw [paint, setPixel_eq, Option.bind_some]
      exact ih (d.plot x y value).1
    | clear =>
      rw [paint, ← bytes_blank]
      exact ih .blank

end Checked

namespace Display

/-- On bytes as on rows of bits, a pixel shows the parity of its flips, and a plot reports a hit
if it is odd and finds an odd number of flips. No plot reaches another pixel. -/
theorem pixels_count_flips (calls : List Call) :
    let d := blank.after calls
    Checked.paint (Vector.replicate 2048 0) calls = some d.bytes ∧
    (∀ (x : Column) (y : Row), d.pixelAt? (index x y) = some (decide (flips x y calls % 2 = 1)) ∧
      d.bytes[index x y]?.map UInt8.toNat = some (flips x y calls % 2)) ∧
    ∀ (x : Column) (y : Row) (value : UInt8),
      Checked.setPixel d.bytes x y value =
        some ((d.plot x y value).1.bytes, (d.plot x y value).2) ∧
      ((d.plot x y value).2 = true ↔ value.toNat % 2 = 1 ∧ flips x y calls % 2 = 1) ∧
      ∀ (px : Column) (py : Row), px ≠ x ∨ py ≠ y →
        (d.plot x y value).1.pixelAt? (index px py) = d.pixelAt? (index px py) := by
  intro d
  have hrecalls : d.Recalls calls := recalls_after calls
  refine ⟨?_, ?_, ?_⟩
  · rw [← bytes_blank]
    exact Checked.paint_eq blank calls
  · intro x y
    rw [pixelAt?_index, Vector.getElem?_eq_getElem (index_lt x y), getElem_bytes, hrecalls]
    refine ⟨rfl, ?_⟩
    rcases Nat.mod_two_eq_zero_or_one (flips x y calls) with hcount | hcount
    · rw [hcount]
      rfl
    · rw [hcount]
      rfl
  · intro x y value
    refine ⟨Checked.setPixel_eq d x y value, ?_, ?_⟩
    · rw [hit_plot, hrecalls, Bool.and_eq_true, decide_eq_true_iff, decide_eq_true_iff, and_comm]
    · intro px py hother
      have hflips : (Call.plot x y value).flips px py = false := by
        rw [Call.flips, decide_eq_false_iff_not]
        rintro ⟨rfl, rfl, -⟩
        exact hother.elim (· rfl) (· rfl)
      rw [pixelAt?_index, pixelAt?_index, pixel_plot, hflips, Bool.xor_false]

/-- A pixel plotted with odd and even values before and after a clear, and one beside it. -/
theorem flips_of_one_pixel :
    let before : List Call := [.plot 3 2 1, .plot 4 2 7]
    let d := blank.after (before ++ [.clear, .plot 3 2 0xFF, .plot 3 2 0xFE])
    d.bytes[index 3 2]?.map UInt8.toNat = some 1 ∧
      d.bytes[index 4 2]?.map UInt8.toNat = some 0 ∧
      (d.plot 3 2 0x81).2 = true ∧ ¬ (d.plot 3 2 0x80).2 = true ∧
      (d.plot 3 2 0x81).1.pixelAt? (index 4 2) = d.pixelAt? (index 4 2) := by
  intro before d
  obtain ⟨-, hpixels, hplots⟩ :=
    pixels_count_flips (before ++ [.clear, .plot 3 2 0xFF, .plot 3 2 0xFE])
  obtain ⟨-, hodd, hothers⟩ := hplots 3 2 0x81
  obtain ⟨-, heven, -⟩ := hplots 3 2 0x80
  exact ⟨(hpixels 3 2).2, (hpixels 4 2).2, hodd.2 (by decide), mt heven.1 (by decide),
    hothers 4 2 (.inl (by decide))⟩

end Display

end ChipEight
