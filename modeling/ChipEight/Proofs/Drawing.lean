import ChipEight.Proofs.Checked
import ChipEight.Proofs.Effects

namespace ChipEight

/-- The column of a byte that a bit of it is drawn in. -/
theorem getMsbD_eq_testBit (byte : UInt8) {k : Nat} (hk : k < 8) :
    byte.toBitVec.getMsbD k = byte.toNat.testBit (7 - k) := by
  simp only [BitVec.getMsbD, hk, decide_true, Bool.true_and]
  rfl

namespace Machine

/-- The column of a sprite's left edge. -/
def spriteLeft (m : Machine) (x : Register) : Nat := (m.cpu.get x).toNat % 64

/-- The row of a sprite's top edge. -/
def spriteTop (m : Machine) (y : Register) : Nat := (m.cpu.get y).toNat % 32

theorem spriteLeft_lt (m : Machine) (x : Register) : m.spriteLeft x < 64 :=
  Nat.mod_lt _ (by decide)

theorem spriteTop_lt (m : Machine) (y : Register) : m.spriteTop y < 32 :=
  Nat.mod_lt _ (by decide)

/-- How many rows of a sprite are on screen. -/
def spriteRows (m : Machine) (y : Register) (height : Fin 16) : Nat :=
  min height (32 - m.spriteTop y)

/-- A sprite has a bit for the pixel. -/
def Covers (m : Machine) (x y : Register) (height : Fin 16) (px : Column) (py : Row) : Prop :=
  (m.spriteTop y ≤ py ∧ py < m.spriteTop y + m.spriteRows y height) ∧
    m.spriteLeft x ≤ px ∧ px < m.spriteLeft x + 8

/-- What drawing makes of a machine. The lit bits of the sprite flip the pixels that they cover. -/
structure Drawn (m : Machine) (x y : Register) (height : Fin 16) (n : Machine) : Prop where
  inside : ∀ px py, m.Covers x y height px py →
    ∃ byte, m.memory.get? (m.cpu.index.toNat + (py - m.spriteTop y)) = some byte ∧
      n.display.pixel px py =
        (m.display.pixel px py ^^ byte.toNat.testBit (7 - (px - m.spriteLeft x)))
  outside : ∀ px py, ¬ m.Covers x y height px py →
    n.display.pixel px py = m.display.pixel px py
  collision : (∃ px py, m.display.pixel px py = true ∧ n.display.pixel px py = false) →
    n.cpu.get .flag = 1
  noCollision : (¬ ∃ px py, m.display.pixel px py = true ∧ n.display.pixel px py = false) →
    n.cpu.get .flag = 0
  registers : ∀ r, r ≠ .flag → n.cpu.get r = m.cpu.get r
  others : n =
    { m with
      display := n.display
      cpu := { m.cpu with registers := n.cpu.registers, pc := n.cpu.pc } }

variable {m : Machine} {x y : Register} {height : Fin 16}

/-- The bytes of a sprite that are on screen. -/
def spriteBytes (m : Machine) (y : Register) (height : Fin 16) : List UInt8 :=
  (m.memory.readMany m.cpu.index.toNat (m.spriteRows y height)).1

/-- A sprite where it is drawn. -/
def spriteMask (m : Machine) (x y : Register) (height : Fin 16) : Display :=
  .sprite ⟨m.spriteLeft x, m.spriteLeft_lt x⟩ ⟨m.spriteTop y, m.spriteTop_lt y⟩
    (m.spriteBytes y height)

theorem execute_draw (m : Machine) (x y : Register) (height : Fin 16) :
    m.execute (.draw x y height) =
      match Memory.overrun m.cpu.index.toNat (m.spriteRows y height) with
      | none =>
        .done { m with
          display := m.display ^^^ m.spriteMask x y height
          cpu := m.cpu.setFlag (m.display.meets (m.spriteMask x y height)) } ()
      | some fault => .fail { m with display := m.display ^^^ m.spriteMask x y height } fault [] := by
  rw [← m.memory.fault_readMany]
  rfl

theorem result_draw : (m.execute (.draw x y height)).result = .ok () ↔
    m.spriteRows y height = 0 ∨ m.cpu.index.toNat + m.spriteRows y height ≤ 4095 := by
  rw [execute_draw]
  cases h : Memory.overrun m.cpu.index.toNat (m.spriteRows y height) with
  | none =>
    have hin : ¬ (m.spriteRows y height ≠ 0 ∧
        Memory.size < m.cpu.index.toNat + m.spriteRows y height) := by
      intro hbeyond
      rw [Memory.overrun_eq_some.2 ⟨hbeyond, rfl⟩] at h
      cases h
    unfold Memory.size at hin
    rw [Outcome.result_done, eq_self_iff_true, true_iff]
    omega
  | some fault =>
    obtain ⟨hbeyond, -⟩ := Memory.overrun_eq_some.1 h
    unfold Memory.size at hbeyond
    simp only [Outcome.result_fail, reduceCtorEq, false_iff]
    omega

theorem state_draw (h : (m.execute (.draw x y height)).result = .ok ()) :
    (m.execute (.draw x y height)).state =
      { m with
        display := m.display ^^^ m.spriteMask x y height
        cpu := m.cpu.setFlag (m.display.meets (m.spriteMask x y height)) } := by
  rw [execute_draw] at h ⊢
  cases hr : Memory.overrun m.cpu.index.toNat (m.spriteRows y height) with
  | none => rfl
  | some fault =>
    rw [hr] at h
    cases h

/-- Whether a draw succeeds or not, it flips the bits of the rows that memory has. -/
theorem display_draw (m : Machine) (x y : Register) (height : Fin 16) :
    (m.execute (.draw x y height)).state.display = m.display ^^^ m.spriteMask x y height := by
  rw [execute_draw]
  split <;> rfl

theorem pc_draw (m : Machine) (x y : Register) (height : Fin 16) :
    (m.execute (.draw x y height)).state.cpu.pc = m.cpu.pc := by
  rw [execute_draw]
  split <;> rfl

theorem pixel_spriteMask_of_covers {px : Column} {py : Row} (h : m.Covers x y height px py) :
    (m.spriteMask x y height).pixel px py =
      (m.memory.get? (m.cpu.index.toNat + (py - m.spriteTop y))).elim false fun byte =>
        byte.toNat.testBit (7 - (px - m.spriteLeft x)) := by
  obtain ⟨⟨htop, hbottom⟩, hleft, hright⟩ := h
  have hrow : py.val - m.spriteTop y < m.spriteRows y height := by omega
  have hcolumn : px.val - m.spriteLeft x < 8 := by omega
  have htop' : (⟨m.spriteTop y, m.spriteTop_lt y⟩ : Row) ≤ py := htop
  have hinside : (⟨m.spriteLeft x, m.spriteLeft_lt x⟩ : Column) ≤ px ∧
      px.val < m.spriteLeft x + 8 := ⟨hleft, hright⟩
  have hbyte : (m.spriteBytes y height)[py.val - m.spriteTop y]? =
      m.memory.get? (m.cpu.index.toNat + (py - m.spriteTop y)) := by
    rw [spriteBytes, Memory.getElem?_readMany, if_pos hrow]
  rw [spriteMask, Display.pixel_sprite, decide_eq_true htop', Bool.true_and, hbyte]
  cases m.memory.get? (m.cpu.index.toNat + (py - m.spriteTop y)) with
  | none => rfl
  | some byte =>
    simp only [Option.elim_some, decide_eq_true hinside, Bool.true_and]
    exact getMsbD_eq_testBit byte hcolumn

theorem pixel_spriteMask_of_not_covers {px : Column} {py : Row}
    (h : ¬ m.Covers x y height px py) : (m.spriteMask x y height).pixel px py = false := by
  rw [spriteMask, Display.pixel_sprite]
  by_cases htop : (⟨m.spriteTop y, m.spriteTop_lt y⟩ : Row) ≤ py
  · rw [decide_eq_true htop, Bool.true_and]
    have htop' : m.spriteTop y ≤ py := htop
    by_cases hinside : (⟨m.spriteLeft x, m.spriteLeft_lt x⟩ : Column) ≤ px ∧
        px.val < m.spriteLeft x + 8
    · have hbelow : ¬ py.val - m.spriteTop y < m.spriteRows y height := fun hrow =>
        h ⟨⟨htop', by omega⟩, hinside⟩
      have hbyte : (m.spriteBytes y height)[py.val - m.spriteTop y]? = none := by
        rw [spriteBytes, Memory.getElem?_readMany, if_neg hbelow]
      rw [hbyte]
      rfl
    · rw [decide_eq_false hinside]
      cases (m.spriteBytes y height)[py.val - m.spriteTop y]? <;> rfl
  · rw [decide_eq_false htop, Bool.false_and]

/-- Two displays share a lit pixel where flipping by the one turns a pixel of the other off. -/
theorem meets_iff_turned_off {d mask : Display} :
    d.meets mask = true ↔
      ∃ px py, d.pixel px py = true ∧ (d ^^^ mask).pixel px py = false := by
  rw [Display.meets_eq_true]
  apply exists_congr
  intro px
  apply exists_congr
  intro py
  apply and_congr_right
  intro hlit
  rw [Display.pixel_xor, hlit, Bool.true_xor, Bool.not_eq_false']

theorem drawn_execute (h : (m.execute (.draw x y height)).result = .ok ()) :
    m.Drawn x y height (m.execute (.draw x y height)).state := by
  rw [state_draw h]
  constructor
  case inside =>
    intro px py hcovers
    have hrow : py.val - m.spriteTop y < m.spriteRows y height := by
      have htop := hcovers.1
      omega
    have hin : m.cpu.index.toNat + (py - m.spriteTop y) < Memory.size := by
      have hfits := result_draw.1 h
      unfold Memory.size
      omega
    refine ⟨_, Memory.get?_of_lt _ hin, ?_⟩
    rw [Display.pixel_xor, pixel_spriteMask_of_covers hcovers, Memory.get?_of_lt _ hin]
    rfl
  case outside =>
    intro px py hcovers
    rw [Display.pixel_xor, pixel_spriteMask_of_not_covers hcovers, Bool.xor_false]
  case collision =>
    intro hoff
    rw [Cpu.setFlag, Cpu.get_set, if_pos rfl, meets_iff_turned_off.2 hoff]
    rfl
  case noCollision =>
    intro hoff
    have hmeets : m.display.meets (m.spriteMask x y height) = false :=
      Bool.eq_false_iff.2 fun hmeets => hoff (meets_iff_turned_off.1 hmeets)
    rw [Cpu.setFlag, Cpu.get_set, if_pos rfl, hmeets]
    rfl
  case registers =>
    intro r hr
    exact m.cpu.get_set_of_ne _ hr
  case others => rfl

/-- Moving past the word changes nothing that drawing depends on. -/
theorem drawn_cycle (h : m.cycle.result = .ok (.draw x y height)) :
    m.Drawn x y height m.cycle.state := by
  obtain ⟨w, -, -, hc⟩ := cycle_ok h
  rw [hc] at h ⊢
  obtain ⟨_, hok, -⟩ := Outcome.result_map_eq_ok.1 h
  have hdrawn := drawn_execute hok
  exact ⟨hdrawn.inside, hdrawn.outside, hdrawn.collision, hdrawn.noCollision, hdrawn.registers,
    hdrawn.others⟩

/-- Drawing reads the rows on screen and no other byte. -/
theorem execute_draw_congr {other : Memory} (h : ∀ k < m.spriteRows y height,
    other.get? (m.cpu.index.toNat + k) = m.memory.get? (m.cpu.index.toNat + k)) :
    { m with memory := other }.execute (.draw x y height) =
      (m.execute (.draw x y height)).within ({ · with memory := other }) := by
  have hrows : { m with memory := other }.spriteRows y height = m.spriteRows y height := rfl
  have hindex : { m with memory := other }.cpu.index = m.cpu.index := rfl
  have hmask : { m with memory := other }.spriteMask x y height = m.spriteMask x y height := by
    have hbytes : { m with memory := other }.spriteBytes y height = m.spriteBytes y height :=
      congrArg Prod.fst (Memory.readMany_congr h)
    rw [spriteMask, hbytes]
    rfl
  rw [execute_draw, execute_draw, hrows, hindex, hmask]
  split <;> rfl

/-- Drawing row by row and pixel by pixel flips what the sprite covers, clipped at the edges, and
reports whether that turned a pixel off. It needs no byte but those of the rows on screen. -/
theorem sprite_flips_pixels (m : Machine) (x y : Register) (height : Fin 16) :
    Checked.draw m x y height = some (m.execute (.draw x y height)) ∧
      ((m.execute (.draw x y height)).result = .ok () ↔
        m.spriteRows y height = 0 ∨ m.cpu.index.toNat + m.spriteRows y height ≤ 4095) ∧
      ((m.execute (.draw x y height)).result = .ok () →
        m.Drawn x y height (m.execute (.draw x y height)).state) ∧
      (m.cycle.result = .ok (.draw x y height) → m.Drawn x y height m.cycle.state) ∧
      ∀ other, (∀ k < m.spriteRows y height,
          other.get? (m.cpu.index.toNat + k) = m.memory.get? (m.cpu.index.toNat + k)) →
        { m with memory := other }.execute (.draw x y height) =
          (m.execute (.draw x y height)).within ({ · with memory := other }) :=
  ⟨Checked.draw_eq m x y height, result_draw, drawn_execute, drawn_cycle,
    fun _ => execute_draw_congr⟩

/-- The digit zero in the top left corner of a blank screen. -/
theorem pixels_of_zero_digit :
    let m := (Session.launch [0xD0, 0x15] {} (Vector.replicate 8 0) none).state.machine
    m.cycle.result = .ok (.draw (nibble 0) (nibble 1) (nibble 5)) ∧
      m.cycle.state.display.pixel 3 4 = true ∧ m.cycle.state.display.pixel 4 4 = false ∧
      m.cycle.state.cpu.get .flag = 0 := by
  intro m
  have hload : Memory.initial.load [0xD0, 0x15] = .ok m.memory := rfl
  have hword : m.memory.readWord 0x200 = .ok 0xD015 := Memory.readWord_load hload 0 rfl rfl
  have hblank : m.display = .blank := rfl
  have hfits : (m.fetched.execute (.draw (nibble 0) (nibble 1) (nibble 5))).result = .ok () :=
    (sprite_flips_pixels m.fetched _ _ _).2.1.2 (.inr (by decide))
  have hdraw : m.cycle.result = .ok (.draw (nibble 0) (nibble 1) (nibble 5)) := by
    rw [cycle_of_decoded hword rfl]
    exact Outcome.result_map_eq_ok.2 ⟨(), hfits, rfl⟩
  have hdrawn := (sprite_flips_pixels m _ _ _).2.2.2.1 hdraw
  have hleft : m.spriteLeft (nibble 0) = 0 := rfl
  have htop : m.spriteTop (nibble 1) = 0 := rfl
  have hrows : m.spriteRows (nibble 1) (nibble 5) = 5 := rfl
  -- The last row of the digit is four pixels wide.
  have hrow (px : Column) (hpx : px.val < 8) :
      m.cycle.state.display.pixel px 4 = (0xF0 : UInt8).toNat.testBit (7 - px) := by
    have hcovers : m.Covers (nibble 0) (nibble 1) (nibble 5) px 4 := by
      rw [Covers, hleft, htop, hrows]
      exact ⟨by decide, Nat.zero_le _, by omega⟩
    have hlast : m.memory.get? 4 = some 0xF0 :=
      (Memory.get?_load hload 4).trans (Memory.get?_initial (by decide))
    obtain ⟨byte, hbyte, hpixel⟩ := hdrawn.inside px 4 hcovers
    cases hlast.symm.trans hbyte
    rw [hpixel, hblank, Display.pixel_blank, Bool.false_xor, hleft, Nat.sub_zero]
  refine ⟨hdraw, ?_, ?_, ?_⟩
  · rw [hrow 3 (by decide)]
    decide
  · rw [hrow 4 (by decide)]
    decide
  · apply hdrawn.noCollision
    rintro ⟨px, py, hlit, -⟩
    rw [hblank, Display.pixel_blank] at hlit
    cases hlit

end Machine

end ChipEight
