namespace ChipEight

abbrev Column := Fin 64

abbrev Row := Fin 32

/-- Rows from the top, each with its leftmost pixel in the most significant bit. -/
@[ext]
structure Display where
  rows : Vector (BitVec 64) 32
  deriving DecidableEq

namespace Display

def blank : Display := ⟨Vector.replicate 32 0#64⟩

def pixel (d : Display) (x : Column) (y : Row) : Bool := d.rows[y].getMsbD x

/-- Flips the pixels of one display that are lit in the other. -/
instance : XorOp Display := ⟨fun d e => ⟨Vector.zipWith (· ^^^ ·) d.rows e.rows⟩⟩

/-- Some pixel is lit in both. -/
def meets (d e : Display) : Bool :=
  (Vector.zipWith (· &&& ·) d.rows e.rows).any (· ≠ 0#64)

/-- A single lit pixel. -/
def dot (x : Column) (y : Row) : Display :=
  ⟨blank.rows.set y (BitVec.twoPow 64 (63 - x))⟩

/-- A sprite's byte with its leftmost pixel in column `x`. What would lie beyond the right edge
is lost. -/
def stripe (x : Column) (byte : UInt8) : BitVec 64 :=
  (byte.toBitVec.setWidth 64 <<< 56) >>> x.val

/-- A sprite with its top left corner at `(x, y)`, clipped at the right and the bottom edge. -/
def sprite (x : Column) (y : Row) (bytes : List UInt8) : Display :=
  ⟨Vector.ofFn fun r => if y ≤ r then (bytes[r.val - y.val]?.map (stripe x)).getD 0#64 else 0#64⟩

/-- Flips the pixels of a mask and tells whether that turned a lit one off. -/
def stamp (d mask : Display) : Display × Bool := (d ^^^ mask, d.meets mask)

/-- Flips one pixel if the value is odd. -/
def plot (d : Display) (x : Column) (y : Row) (value : UInt8) : Display × Bool :=
  d.stamp (if value % 2 = 1 then dot x y else blank)

/-- Where a pixel stands in row-major order. -/
def index (x y : Nat) : Nat := x + 64 * y

/-- The pixel at a place in row-major order. -/
def pixelAt? (d : Display) (i : Nat) : Option Bool :=
  if h : i < 64 * 32 then some (d.pixel ⟨i % 64, by omega⟩ ⟨i / 64, by omega⟩) else none

/-- Number of lit pixels. -/
def lit (d : Display) : Nat :=
  (d.rows.toList.map fun row => (List.range 64).countP (row.getMsbD ·)).foldl (· + ·) 0

/-- A line of text for each row. -/
def lines (d : Display) : List String :=
  (List.finRange 32).map fun y =>
    String.ofList ((List.finRange 64).map fun x => if d.pixel x y then '#' else '.')

theorem rows_xor (d e : Display) (y : Row) : (d ^^^ e).rows[y] = d.rows[y] ^^^ e.rows[y] := by
  show (Vector.zipWith (· ^^^ ·) d.rows e.rows)[y.val] = _
  exact Vector.getElem_zipWith _

@[simp]
theorem pixel_xor (d e : Display) (x : Column) (y : Row) :
    (d ^^^ e).pixel x y = (d.pixel x y ^^ e.pixel x y) := by
  simp only [pixel, rows_xor, BitVec.getMsbD_xor]

@[simp]
theorem pixel_blank (x : Column) (y : Row) : blank.pixel x y = false := by
  simp [pixel, blank]

@[simp]
theorem pixel_dot (x px : Column) (y py : Row) :
    (dot x y).pixel px py = (decide (px = x) && decide (py = y)) := by
  simp only [pixel, dot, blank, Fin.getElem_fin, Vector.getElem_set, Vector.getElem_replicate]
  split
  · simp only [BitVec.getMsbD_twoPow, Fin.ext_iff]
    grind
  · simp only [BitVec.getMsbD_zero, Fin.ext_iff]
    grind

theorem getMsbD_stripe (x px : Column) (byte : UInt8) :
    (stripe x byte).getMsbD px =
      (decide (x ≤ px ∧ px.val < x + 8) && byte.toBitVec.getMsbD (px - x)) := by
  simp only [stripe, BitVec.getMsbD, Fin.le_def]
  grind

/-- The sprite's bytes are rows and their bits, from the most significant one on, are columns. -/
theorem pixel_sprite (x px : Column) (y py : Row) (bytes : List UInt8) :
    (sprite x y bytes).pixel px py =
      (decide (y ≤ py) && (bytes[py.val - y.val]?.elim false fun byte =>
        decide (x ≤ px ∧ px.val < x + 8) && byte.toBitVec.getMsbD (px - x))) := by
  simp only [pixel, sprite, Fin.getElem_fin, Vector.getElem_ofFn, Fin.eta]
  split
  · cases bytes[py.val - y.val]? <;> simp [getMsbD_stripe, *]
  · simp [*]

/-- Displays are told apart by their pixels. -/
theorem ext_pixel {d e : Display} (h : ∀ x y, d.pixel x y = e.pixel x y) : d = e := by
  ext y hy : 2
  refine BitVec.eq_of_getMsbD_eq fun i hi => ?_
  exact h ⟨i, hi⟩ ⟨y, hy⟩

theorem meets_eq_true {d e : Display} :
    d.meets e = true ↔ ∃ x y, d.pixel x y = true ∧ e.pixel x y = true := by
  simp only [meets, Vector.any_eq_true, Vector.getElem_zipWith, decide_eq_true_eq]
  constructor
  · rintro ⟨y, hy, hne⟩
    refine Classical.byContradiction fun hc => hne (BitVec.eq_of_getMsbD_eq fun i hi => ?_)
    rw [BitVec.getMsbD_and, BitVec.getMsbD_zero]
    refine Bool.eq_false_iff.2 fun hb => hc ⟨⟨i, hi⟩, ⟨y, hy⟩, ?_⟩
    simpa [pixel] using hb
  · rintro ⟨x, y, hd, he⟩
    refine ⟨y, y.isLt, fun h => ?_⟩
    have hb := congrArg (·.getMsbD x.val) h
    simp only [BitVec.getMsbD_and, BitVec.getMsbD_zero] at hb
    simp only [pixel, Fin.getElem_fin] at hd he
    simp [hd, he] at hb

end Display

end ChipEight
