import ChipEight.Machine
import ChipEight.Proofs.MemoryRange

namespace ChipEight

namespace Display

/-- No pixel is lit in both. -/
def Apart (d e : Display) : Prop := ∀ x y, d.pixel x y = true → e.pixel x y = false

theorem xor_blank (d : Display) : d ^^^ blank = d := by
  apply ext_pixel
  intro x y
  rw [pixel_xor, pixel_blank, Bool.xor_false]

theorem xor_right_comm (d a b : Display) : d ^^^ a ^^^ b = d ^^^ b ^^^ a := by
  apply ext_pixel
  intro x y
  simp only [pixel_xor, Bool.xor_right_comm]

theorem xor_xor_cancel_right (d a : Display) : d ^^^ a ^^^ a = d := by
  apply ext_pixel
  intro x y
  rw [pixel_xor, pixel_xor, Bool.xor_assoc, Bool.xor_self, Bool.xor_false]

theorem meets_blank (d : Display) : d.meets blank = false := by
  apply Bool.eq_false_iff.2
  intro h
  obtain ⟨x, y, -, hb⟩ := meets_eq_true.1 h
  rw [pixel_blank] at hb
  cases hb

theorem stamp_blank (d : Display) : d.stamp blank = (d, false) := by
  rw [stamp, xor_blank, meets_blank]

/-- Stamping two masks that lie apart is stamping both at once. -/
theorem stamp_stamp {a b : Display} (h : a.Apart b) (d : Display) :
    (((d.stamp a).1.stamp b).1, (d.stamp a).2 || ((d.stamp a).1.stamp b).2) =
      d.stamp (a ^^^ b) := by
  have hdisplay : (d ^^^ a) ^^^ b = d ^^^ (a ^^^ b) := by
    apply ext_pixel
    intro x y
    simp only [pixel_xor, Bool.xor_assoc]
  have hmeets : (d.meets a || (d ^^^ a).meets b) = d.meets (a ^^^ b) := by
    rw [Bool.eq_iff_iff, Bool.or_eq_true, meets_eq_true, meets_eq_true, meets_eq_true]
    constructor
    · intro hor
      rcases hor with ⟨x, y, hd, ha⟩ | ⟨x, y, hd, hb⟩
      · exact ⟨x, y, hd, by rw [pixel_xor, ha, h x y ha]; rfl⟩
      · have ha : a.pixel x y = false := Bool.eq_false_iff.2 fun ha => by
          cases hb.symm.trans (h x y ha)
        rw [pixel_xor, ha, Bool.xor_false] at hd
        exact ⟨x, y, hd, by rw [pixel_xor, ha, hb]; rfl⟩
    · intro hxor
      obtain ⟨x, y, hd, hab⟩ := hxor
      rw [pixel_xor] at hab
      cases ha : a.pixel x y with
      | true => exact .inl ⟨x, y, hd, ha⟩
      | false =>
        rw [ha, Bool.false_xor] at hab
        exact .inr ⟨x, y, by rw [pixel_xor, ha, Bool.xor_false, hd], hab⟩
  simp only [stamp, hdisplay, hmeets]

end Display

namespace Checked

/-- Flips a pixel, provided it is on screen. -/
def plot (d : Display) (x y : Nat) (value : UInt8) : Option (Display × Bool) :=
  if h : x < 64 ∧ y < 32 then some (d.plot ⟨x, h.1⟩ ⟨y, h.2⟩ value) else none

/-- Draws what is left of a byte from a column of its own on, up to the right edge. -/
def drawByte (byte : UInt8) (x y : Nat) : Nat → Nat → Display × Bool → Option (Display × Bool)
  | _, 0, drawn => some drawn
  | column, n + 1, drawn =>
    if 64 ≤ x + column then some drawn
    else if 7 < column then none
    else
      (plot drawn.1 (x + column) y ((byte >>> (7 - column).toUInt8) &&& 1)).bind fun plotted =>
        drawByte byte x y (column + 1) n (plotted.1, drawn.2 || plotted.2)

/-- Draws rows of a sprite one after the other, up to the bottom edge. -/
def drawRows (memory : Memory) (address x y : Nat) :
    Nat → Nat → Display × Bool → Option ((Display × Bool) × Option Fault)
  | _, 0, drawn => some (drawn, none)
  | row, n + 1, drawn =>
    if 32 ≤ y + row then some (drawn, none)
    else
      match memory.read (address + row) with
      | .error fault => some (drawn, some fault)
      | .ok byte =>
        (drawByte byte x (y + row) 0 8 drawn).bind (drawRows memory address x y (row + 1) n)

theorem bit_eq (byte : UInt8) {k : Nat} (hk : k < 8) :
    decide (((byte >>> (7 - k).toUInt8) &&& 1) % 2 = 1) = byte.toBitVec.getMsbD k := by
  have hs : (7 - k) % 256 % 8 = 7 - k := by omega
  have hmsb : byte.toBitVec.getMsbD k = byte.toNat.testBit (7 - k) := by
    simp only [BitVec.getMsbD, hk, decide_true, Bool.true_and]
    rfl
  rw [hmsb, Nat.testBit_eq_decide_div_mod_eq]
  simp [hs, Nat.shiftRight_eq_div_pow, ← UInt8.toNat_inj]

variable {d mask : Display}

theorem plot_stamp {x : Column} {y : Row} (value : UInt8) (clear : mask.pixel x y = false) :
    ∃ mask', (((d.stamp mask).1.plot x y value).1,
        (d.stamp mask).2 || ((d.stamp mask).1.plot x y value).2) = d.stamp mask' ∧
      ∀ px py, mask'.pixel px py =
        (mask.pixel px py || decide (px = x ∧ py = y) && decide (value % 2 = 1)) := by
  by_cases hv : value % 2 = 1
  · -- An odd value is a dot, and the mask grows by it since the pixel was clear.
    have apart : mask.Apart (.dot x y) := by
      intro px py hp
      rw [Display.pixel_dot, ← Bool.decide_and, decide_eq_false_iff_not]
      intro h
      rw [h.1, h.2, clear] at hp
      cases hp
    refine ⟨mask ^^^ .dot x y, ?_, fun px py => ?_⟩
    · rw [← Display.stamp_stamp apart, Display.plot, if_pos hv]
    · rw [Display.pixel_xor, Display.pixel_dot, ← Bool.decide_and, decide_eq_true hv, Bool.and_true]
      by_cases hp : px = x ∧ py = y
      · rw [hp.1, hp.2, clear, Bool.false_xor, Bool.false_or]
      · rw [decide_eq_false hp, Bool.xor_false, Bool.or_false]
  · refine ⟨mask, ?_, fun px py => ?_⟩
    · rw [Display.plot, if_neg hv, Display.stamp_blank, Bool.or_false]
    · rw [decide_eq_false hv, Bool.and_false, Bool.or_false]

/-- Below a row that a mask has not reached, the columns of a byte add themselves to the mask. -/
theorem drawByte_stamp (byte : UInt8) (x : Column) (y : Row) (n column : Nat) (hn : column + n = 8)
    (clear : ∀ px, x.val + column ≤ px.val → mask.pixel px y = false) :
    ∃ mask', drawByte byte x y column n (d.stamp mask) = some (d.stamp mask') ∧
      ∀ px py, mask'.pixel px py =
        (mask.pixel px py || decide (py = y ∧ x.val + column ≤ px.val ∧ px.val < x + 8) &&
          byte.toBitVec.getMsbD (px - x)) := by
  induction n generalizing mask column with
  | zero =>
    refine ⟨mask, rfl, fun px py => ?_⟩
    have hempty : ¬ (py = y ∧ x.val + column ≤ px.val ∧ px.val < x + 8) := by omega
    rw [decide_eq_false hempty, Bool.false_and, Bool.or_false]
  | succ n ih =>
    rw [drawByte]
    by_cases hedge : 64 ≤ x.val + column
    · refine ⟨mask, if_pos hedge, fun px py => ?_⟩
      have hempty : ¬ (py = y ∧ x.val + column ≤ px.val ∧ px.val < x + 8) := by omega
      rw [decide_eq_false hempty, Bool.false_and, Bool.or_false]
    · -- This column is plotted first; the columns to its right are still clear after it.
      have hx : x.val + column < 64 := by omega
      have hcolumn : ¬ 7 < column := by omega
      obtain ⟨next, hnext, hpixel⟩ := plot_stamp (d := d) (x := ⟨x + column, hx⟩)
        ((byte >>> (7 - column).toUInt8) &&& 1) (clear ⟨x + column, hx⟩ (Nat.le_refl _))
      have hclear : ∀ px : Column, x.val + (column + 1) ≤ px.val → next.pixel px y = false := by
        intro px hpx
        have hne : ¬ (px = ⟨x + column, hx⟩ ∧ y = y) := by
          intro h
          have := congrArg Fin.val h.1
          simp only at this
          omega
        rw [hpixel, clear px (by omega), decide_eq_false hne]
        rfl
      obtain ⟨mask', hdraw, hpixel'⟩ := ih (column + 1) (by omega) hclear
      refine ⟨mask', ?_, fun px py => ?_⟩
      · rw [if_neg hedge, if_neg hcolumn, plot, dif_pos ⟨hx, y.isLt⟩, Option.bind_some]
        rw [← hdraw, ← hnext]
      · rw [hpixel', hpixel, bit_eq byte (by omega), Bool.or_assoc]
        refine congrArg _ ?_
        by_cases hp : px.val = x + column ∧ py = y
        · have hthis : px = ⟨x + column, hx⟩ ∧ py = y := ⟨Fin.ext hp.1, hp.2⟩
          have hnot : ¬ (py = y ∧ x.val + (column + 1) ≤ px.val ∧ px.val < x + 8) := by omega
          have hin : py = y ∧ x.val + column ≤ px.val ∧ px.val < x + 8 :=
            ⟨hp.2, by omega, by omega⟩
          have hk : px.val - x.val = column := by omega
          rw [decide_eq_true hthis, decide_eq_false hnot, decide_eq_true hin, hk, Bool.false_and,
            Bool.or_false]
        · have hthis : ¬ (px = ⟨x + column, hx⟩ ∧ py = y) := fun h => hp ⟨congrArg _ h.1, h.2⟩
          have hiff : (py = y ∧ x.val + (column + 1) ≤ px.val ∧ px.val < x + 8) ↔
              (py = y ∧ x.val + column ≤ px.val ∧ px.val < x + 8) := by
            apply and_congr_right
            intro hy
            have hne : px.val ≠ x + column := fun h => hp ⟨h, hy⟩
            omega
          rw [decide_eq_false hthis, decide_eq_decide.2 hiff, Bool.false_and, Bool.false_or]

/-- Below the rows that a mask has reached, the rows of a sprite add themselves to the mask. -/
theorem drawRows_stamp (memory : Memory) (address : Nat) (x : Column) (y : Row) (n row : Nat)
    (clear : ∀ px py : Fin _, y.val + row ≤ py.val → mask.pixel px py = false) :
    ∃ mask', drawRows memory address x y row n (d.stamp mask) =
        some (d.stamp mask', (memory.readMany (address + row) (min n (32 - (y + row)))).2) ∧
      ∀ px py, mask'.pixel px py =
        (mask.pixel px py || decide (y.val + row ≤ py.val) &&
          ((memory.readMany (address + row) (min n (32 - (y + row)))).1[py - (y + row)]?.elim false
            fun byte => decide (x ≤ px ∧ px.val < x + 8) && byte.toBitVec.getMsbD (px - x))) := by
  induction n generalizing mask row with
  | zero =>
    refine ⟨mask, ?_, fun px py => ?_⟩
    · rw [Nat.zero_min]
      rfl
    · rw [Nat.zero_min]
      simp [Memory.readMany]
  | succ n ih =>
    rw [drawRows]
    by_cases hedge : 32 ≤ y.val + row
    · have hzero : min (n + 1) (32 - (y.val + row)) = 0 := by omega
      rw [hzero, if_pos hedge]
      exact ⟨mask, rfl, fun px py => by simp [Memory.readMany]⟩
    · have hmin : min (n + 1) (32 - (y.val + row)) = min n (32 - (y.val + (row + 1))) + 1 := by omega
      rw [hmin, if_neg hedge]
      rcases Nat.lt_or_ge (address + row) Memory.size with ha | ha
      · -- One byte becomes part of the mask, and the rows below it are still clear.
        have hy : y.val + row < 32 := by omega
        obtain ⟨next, hbyte, hpixel⟩ := drawByte_stamp (d := d) memory.bytes[address + row] x
          ⟨y + row, hy⟩ 8 0 rfl fun px _ => clear px ⟨y + row, hy⟩ (Nat.le_refl _)
        have hclear : ∀ px py : Fin _, y.val + (row + 1) ≤ py.val → next.pixel px py = false := by
          intro px py hpy
          have hne : ¬ (py = ⟨y + row, hy⟩ ∧ x.val + 0 ≤ px.val ∧ px.val < x + 8) := by
            intro h
            have hval := congrArg Fin.val h.1
            simp only at hval
            omega
          rw [hpixel, clear px py (by omega), decide_eq_false hne, Bool.false_and, Bool.false_or]
        obtain ⟨mask', hdraw, hpixel'⟩ := ih (row + 1) hclear
        rw [Memory.readMany, Memory.read_of_lt _ ha]
        refine ⟨mask', ?_, fun px py => ?_⟩
        · show (drawByte _ _ _ _ _ _).bind _ = _
          rw [hbyte, Option.bind_some, hdraw]
          rfl
        · rw [hpixel', hpixel, Bool.or_assoc]
          refine congrArg _ ?_
          rcases Nat.lt_trichotomy py.val (y + row) with hpy | hpy | hpy
          · have hne : ¬ (py = ⟨y + row, hy⟩ ∧ x.val + 0 ≤ px.val ∧ px.val < x + 8) :=
              fun h => Nat.ne_of_lt hpy (congrArg Fin.val h.1)
            rw [decide_eq_false hne, decide_eq_false (by omega : ¬ y.val + (row + 1) ≤ py.val),
              decide_eq_false (by omega : ¬ y.val + row ≤ py.val)]
            rfl
          · have hrow : py = ⟨y + row, hy⟩ := Fin.ext hpy
            have hzero : py.val - (y.val + row) = 0 := by omega
            have hiff : (py = ⟨y + row, hy⟩ ∧ x.val + 0 ≤ px.val ∧ px.val < x + 8) ↔
                (x ≤ px ∧ px.val < x + 8) := ⟨And.right, fun h => ⟨hrow, h⟩⟩
            rw [decide_eq_false (by omega : ¬ y.val + (row + 1) ≤ py.val),
              decide_eq_true (by omega : y.val + row ≤ py.val), hzero, decide_eq_decide.2 hiff,
              Bool.false_and, Bool.or_false, Bool.true_and]
            rfl
          · have hne : ¬ (py = ⟨y + row, hy⟩ ∧ x.val + 0 ≤ px.val ∧ px.val < x + 8) :=
              fun h => Nat.ne_of_gt hpy (congrArg Fin.val h.1)
            have hsucc : py.val - (y.val + row) = py.val - (y.val + (row + 1)) + 1 := by omega
            rw [decide_eq_false hne, decide_eq_true (by omega : y.val + (row + 1) ≤ py.val),
              decide_eq_true (by omega : y.val + row ≤ py.val), hsucc, Bool.false_and,
              Bool.false_or, List.getElem?_cons_succ]
            rfl
      · rw [Memory.readMany, Memory.read_of_le _ ha]
        exact ⟨mask, rfl, fun px py => by simp⟩

/-- Drawing pixel by pixel is stamping the sprite that is in memory. -/
theorem drawRows_eq (memory : Memory) (address : Nat) (x : Column) (y : Row) (n : Nat)
    (d : Display) :
    drawRows memory address x y 0 n (d, false) =
      some (d.stamp (.sprite x y (memory.readMany address (min n (32 - y))).1),
        (memory.readMany address (min n (32 - y))).2) := by
  obtain ⟨mask, hdraw, hpixel⟩ := @drawRows_stamp d .blank memory address x y n 0
    fun px py _ => Display.pixel_blank px py
  have hsprite : mask = .sprite x y (memory.readMany address (min n (32 - y))).1 := by
    apply Display.ext_pixel
    intro px py
    rw [hpixel, Display.pixel_blank, Display.pixel_sprite]
    rfl
  rw [← Display.stamp_blank, hdraw, hsprite]
  rfl

end Checked

end ChipEight
