import ChipEight.Proofs.Transfers

namespace ChipEight

namespace Memory

/-- The rows of a hexadecimal digit. -/
def glyph (digit : Fin 16) : List UInt8 := glyphs.getD digit []

theorem length_glyph (digit : Fin 16) : (glyph digit).length = 5 := by
  revert digit
  decide

/-- The font is the digits in order. -/
theorem getElem?_font (digit : Fin 16) (k : Fin 5) :
    font[5 * digit.val + k]? = (glyph digit)[k.val]? := by
  revert digit k
  decide

end Memory

namespace Display

/-- Only the rows above the bottom edge matter. -/
theorem sprite_congr {x : Column} {y : Row} {bytes bytes' : List UInt8}
    (h : ∀ k, y.val + k < 32 → bytes'[k]? = bytes[k]?) : sprite x y bytes' = sprite x y bytes := by
  apply ext_pixel
  intro px py
  rw [pixel_sprite, pixel_sprite]
  by_cases hrow : y ≤ py
  · have hle : y.val ≤ py.val := hrow
    rw [h (py.val - y.val) (by omega)]
  · rw [decide_eq_false hrow, Bool.false_and, Bool.false_and]

end Display

namespace Machine

variable {m : Machine} {x y : Register} {digit : Fin 16}

/-- The rows of a digit are where the font has them. -/
def HasGlyph (m : Machine) (digit : Fin 16) : Prop :=
  ∀ k < 5, m.memory.get? (5 * digit + k) = Memory.font[5 * digit.val + k]?

theorem index_pointGlyph (h : (m.cpu.get x).toNat = digit.val) :
    (m.execute (.pointGlyph x)).state.cpu.index.toNat = 5 * digit := by
  have hdigit := digit.isLt
  have hindex : (m.execute (.pointGlyph x)).state.cpu.index =
      (m.cpu.get x).toUInt16 * Memory.glyphHeight.toUInt16 := rfl
  have hheight : Memory.glyphHeight.toUInt16.toNat = 5 := rfl
  rw [hindex, UInt16.toNat_mul, UInt8.toNat_toUInt16, hheight, h]
  omega

/-- With I at an untouched digit, five rows of a sprite are that digit. -/
theorem draw_glyph (hindex : m.cpu.index.toNat = 5 * digit) (h : m.HasGlyph digit) :
    (m.execute (.draw x y (nibble 5))).result = .ok () ∧
      (m.execute (.draw x y (nibble 5))).state.display =
        m.display ^^^ .sprite (Fin.ofNat 64 (m.cpu.get x).toNat)
          (Fin.ofNat 32 (m.cpu.get y).toNat) (Memory.glyph digit) := by
  have hdigit := digit.isLt
  have hrows : m.spriteRows y (nibble 5) = min 5 (32 - m.spriteTop y) := rfl
  have hok : (m.execute (.draw x y (nibble 5))).result = .ok () := by
    rw [result_draw]
    omega
  refine ⟨hok, ?_⟩
  rw [state_draw hok]
  refine congrArg (m.display ^^^ ·) (Display.sprite_congr fun k hk => ?_)
  have htop : m.spriteTop y + k < 32 := hk
  rw [spriteBytes, Memory.getElem?_readMany, hindex]
  by_cases hk5 : k < 5
  · rw [if_pos (by omega), h k hk5]
    exact Memory.getElem?_font digit ⟨k, hk5⟩
  · have hlength := Memory.length_glyph digit
    rw [if_neg (by omega), List.getElem?_eq_none (by omega)]

/-- The corner of a sprite is the first bit of its first byte. -/
theorem pixel_corner {height : Fin 16} {left : Column} {top : Row} {byte : UInt8}
    (hleft : left.val = m.spriteLeft x) (htop : top.val = m.spriteTop y) (hheight : 0 < height.val)
    (h : (m.execute (.draw x y height)).result = .ok ())
    (hbyte : m.memory.get? m.cpu.index.toNat = some byte) :
    (m.execute (.draw x y height)).state.display.pixel left top =
      (m.display.pixel left top ^^ byte.toNat.testBit 7) := by
  have hcovers : m.Covers x y height left top := by
    have hbottom := top.isLt
    rw [Covers, spriteRows, hleft, htop]
    omega
  obtain ⟨first, hfirst, hpixel⟩ := (drawn_execute h).inside left top hcovers
  rw [htop, Nat.sub_self, Nat.add_zero] at hfirst
  cases hfirst.symm.trans hbyte
  rw [hpixel, hleft, Nat.sub_self]

end Machine

namespace Session

variable {s : Session}

/-- The addresses that FX33 and FX55 write to in a step. -/
def stores (s : Session) : Machine.Operation → List Nat
  | .cycle => s.writes .cycle
  | _ => []

/-- The addresses that FX33 and FX55 write to in some steps. -/
def stored (ops : List Machine.Operation) (s : Session) : List Nat := s.collect stores ops

theorem mem_stores {op : Machine.Operation} {a : Nat} (low : a < 0x200) (h : a ∈ s.writes op) :
    a ∈ s.stores op := by
  cases op with
  | load program =>
    rw [writes] at h
    split at h
    · rw [List.mem_range'_1] at h
      omega
    · cases h
  | cycle => exact h
  | tick | setKey | poll => cases h

theorem mem_stored {ops : List Machine.Operation} {a : Nat} (low : a < 0x200)
    (h : a ∈ s.written ops) : a ∈ s.stored ops := by
  induction ops generalizing s with
  | nil => cases h
  | cons op ops ih =>
    rcases List.mem_append.1 h with hfirst | hrest
    · exact List.mem_append_left _ (mem_stores low hfirst)
    · exact List.mem_append_right _ (ih hrest)

/-- Below the programs only FX33 and FX55 write. -/
theorem get?_follow_of_low {ops : List Machine.Operation} {a : Nat} (low : a < 0x200)
    (h : a ∉ s.stored ops) : (s.follow ops).machine.memory.get? a = s.machine.memory.get? a :=
  get?_follow fun hwritten => h (mem_stored low hwritten)

/-- FX33 and FX55 are the instructions that store to memory, FX33 the digits of a register and FX55
the registers up to one. -/
inductive StoresTo (s : Session) (a : Nat) : Machine.Operation → Prop
  | decimal {x : Register} (hok : s.cycle.result = .ok (.storeDecimal x))
    (hfrom : s.machine.cpu.index.toNat ≤ a) (hto : a < s.machine.cpu.index.toNat + 3) :
    StoresTo s a .cycle
  | registers {x : Register} (hok : s.cycle.result = .ok (.dump x))
    (hfrom : s.machine.cpu.index.toNat ≤ a) (hto : a ≤ s.machine.cpu.index.toNat + x) :
    StoresTo s a .cycle

/-- What is stored from the font on fits, and is there afterwards. -/
theorem stored_of_low {i : Instruction} {bytes : List UInt8} (live : s.halted = false)
    (low : s.machine.cpu.index.toNat < 0x50) (hnext : s.machine.next? = some i)
    (hbytes : bytes.length ≤ 16)
    (h : s.machine.fetched.execute i = s.machine.fetched.store bytes) :
    s.cycle.result = .ok i ∧ s.machine.Stored bytes s.cycle.state.machine := by
  have hfits : (s.machine.fetched.execute i).result = .ok () := by
    cases hresult : (s.machine.fetched.execute i).result with
    | ok => rfl
    | error fault =>
      rw [h, Machine.fault_store, Memory.overrun_eq_some] at hresult
      have hbeyond : Memory.size < s.machine.cpu.index.toNat + bytes.length := hresult.1.2
      unfold Memory.size at hbeyond
      omega
  refine ⟨(cycle_of_next? live hnext hfits).1, ?_⟩
  rw [machine_cycle live]
  exact Machine.stored_of_execute hnext h

/-- No protection keeps a program from storing over the font. -/
theorem font_overwritten (live : s.halted = false) (low : s.machine.cpu.index.toNat < 0x50)
    (x : Register) :
    (s.machine.next? = some (.storeDecimal x) →
      let value := s.machine.cpu.get x
      s.cycle.result = .ok (.storeDecimal x) ∧
        s.machine.Stored [value / 100, value / 10 % 10, value % 10] s.cycle.state.machine) ∧
    (s.machine.next? = some (.dump x) →
      s.cycle.result = .ok (.dump x) ∧
        s.machine.Stored (s.machine.cpu.upTo x) s.cycle.state.machine) := by
  constructor
  · intro hnext
    exact stored_of_low live low hnext (by simp) rfl
  · intro hnext
    have hlength : (s.machine.cpu.upTo x).length ≤ 16 := by
      rw [Cpu.length_upTo]
      exact x.isLt
    exact stored_of_low live low hnext hlength rfl

/-- A byte of the font that a step has changed is one that FX33 or FX55 has stored. -/
theorem storesTo_of_changed {op : Machine.Operation} {a : Nat} (low : a < 0x50)
    (h : (s.perform op.guarded).state.machine.memory.get? a ≠ s.machine.memory.get? a) :
    s.StoresTo a op := by
  have hwrites : a ∈ s.writes op := Decidable.byContradiction fun hnot => h (get?_perform hnot)
  have hstores := mem_stores (by omega) hwrites
  cases op with
  | load | tick | setKey | poll => cases hstores
  | cycle =>
    rw [stores, writes] at hstores
    cases live : s.halted with
    | true => simp [live] at hstores
    | false =>
      cases hnext : s.machine.next? with
      | none => simp [hnext] at hstores
      | some i =>
        simp only [live, hnext, Bool.false_eq_true, if_false, List.mem_range'_1] at hstores
        obtain ⟨hfrom, hto⟩ := hstores
        have hindex : s.machine.cpu.index.toNat < 0x50 := by omega
        cases i with
        | storeDecimal x =>
          exact .decimal ((font_overwritten live hindex x).1 hnext).1 hfrom hto
        | dump x =>
          exact .registers ((font_overwritten live hindex x).2 hnext).1 hfrom
            (Nat.le_of_lt_succ hto)
        | _ =>
          simp only [Instruction.stored] at hto
          omega

theorem get?_font (config : Config) (entropy : Random.CipherKey) (logger : Option Log.Logger)
    {ops : List Machine.Operation} {a : Nat} (ha : a < 0x50)
    (h : a ∉ (start config entropy logger).stored ops) :
    ((start config entropy logger).follow ops).machine.memory.get? a = Memory.font[a]? := by
  rw [get?_follow_of_low (by omega) h]
  show Memory.initial.get? a = _
  have hfont : a < Memory.font.length := ha
  rw [Memory.get?_initial (by unfold Memory.size; omega), List.getD_eq_getElem?_getD,
    List.getElem?_eq_getElem hfont, Option.getD_some]

theorem draw_glyph {u v : Register} {digit : Fin 16} (live : s.halted = false)
    (hnext : s.machine.next? = some (.draw u v (nibble 5)))
    (hindex : s.machine.cpu.index.toNat = 5 * digit) (h : s.machine.HasGlyph digit) :
    s.cycle.result = .ok (.draw u v (nibble 5)) ∧
      s.cycle.state.machine.display =
        s.machine.display ^^^ .sprite (Fin.ofNat 64 (s.machine.cpu.get u).toNat)
          (Fin.ofNat 32 (s.machine.cpu.get v).toNat) (Memory.glyph digit) := by
  have hglyph : s.machine.fetched.HasGlyph digit := h
  have hpointed : s.machine.fetched.cpu.index.toNat = 5 * digit := hindex
  obtain ⟨hok, hdisplay⟩ := Machine.draw_glyph (x := u) (y := v) hpointed hglyph
  obtain ⟨hresult, hstate⟩ := cycle_of_next? live hnext hok
  refine ⟨hresult, ?_⟩
  rw [hstate]
  exact hdisplay

/-- The font stays where programs do not store over it, whatever else they and their callers do.
A digit that is pointed to and then drawn shows as it is in the font, unless FX33 or FX55 has
written to its rows. No other step changes the font, and these two do, with I below its end. -/
theorem font_outlasts_programs (config : Config) (entropy : Random.CipherKey)
    (logger : Option Log.Logger) (ops : List Operation) :
    let s := start config entropy logger
    s.follow (s.unroll ops) = s.after ops ∧
      (∀ steps, steps <+: s.unroll ops → ∀ a < 0x50, a ∉ s.stored steps →
        (s.follow steps).machine.memory.get? a = Memory.font[a]?) ∧
      (∀ before between later, s.unroll ops = before ++ .cycle :: (between ++ .cycle :: later) →
        let p := s.follow before
        let q := p.cycle.state.follow between
        ∀ x digit u v, p.cycle.result = .ok (.pointGlyph x) →
          (p.machine.cpu.get x).toNat = digit.val →
          (∀ k < 5, 5 * digit.val + k ∉ s.stored (before ++ .cycle :: between)) →
          q.halted = false → q.machine.next? = some (.draw u v (nibble 5)) →
          q.machine.cpu.index = p.cycle.state.machine.cpu.index →
          q.cycle.result = .ok (.draw u v (nibble 5)) ∧
            q.cycle.state.machine.display =
              q.machine.display ^^^ .sprite (Fin.ofNat 64 (q.machine.cpu.get u).toNat)
                (Fin.ofNat 32 (q.machine.cpu.get v).toNat) (Memory.glyph digit)) ∧
      (∀ (t : Session) op, ∀ a < 0x50,
        (t.perform op.guarded).state.machine.memory.get? a ≠ t.machine.memory.get? a →
          t.StoresTo a op) ∧
      ∀ t : Session, t.halted = false → t.machine.cpu.index.toNat < 0x50 → ∀ x,
        (t.machine.next? = some (.storeDecimal x) →
          let value := t.machine.cpu.get x
          t.cycle.result = .ok (.storeDecimal x) ∧
            t.machine.Stored [value / 100, value / 10 % 10, value % 10] t.cycle.state.machine) ∧
        (t.machine.next? = some (.dump x) →
          t.cycle.result = .ok (.dump x) ∧
            t.machine.Stored (t.machine.cpu.upTo x) t.cycle.state.machine) := by
  intro s
  refine ⟨follow_unroll ops s, ?_, ?_, fun t op a => storesTo_of_changed,
    fun t => font_overwritten⟩
  · intro steps _ a ha hkept
    exact get?_font config entropy logger ha hkept
  · intro before between later _ p q x digit u v hpoint hdigit hkept live hnext hindex
    have hq : q = s.follow (before ++ .cycle :: between) := by
      rw [follow_append, follow_cons]
      rfl
    have hglyph : q.machine.HasGlyph digit := by
      intro k hk
      have hdigit' := digit.isLt
      rw [hq]
      exact get?_font config entropy logger (by omega) (hkept k hk)
    have hpointed : q.machine.cpu.index.toNat = 5 * digit := by
      obtain ⟨-, -, hstate⟩ := cycle_ok hpoint
      rw [hindex, hstate]
      exact Machine.index_pointGlyph hdigit
    exact draw_glyph live hnext hpointed hglyph

/-- Pointing to a digit sets I, and nothing else behind the word. -/
theorem past_pointGlyph (s : Session) (x r : Register) :
    let next := (s.past (.pointGlyph x)).machine
    next.memory = s.machine.memory ∧ next.display = s.machine.display ∧
      next.cpu.get r = s.machine.cpu.get r ∧ next.cpu.pc = s.machine.fetched.cpu.pc :=
  ⟨rfl, rfl, rfl, rfl⟩

/-- A program that points to the digit zero and draws it. -/
theorem zero_digit_drawn :
    let program : List UInt8 := [0xF0, 0x29, 0xD0, 0x15]
    let p := ((start {} (Vector.replicate 8 0) none).load program).state
    let q := p.cycle.state
    q.cycle.result = .ok (.draw (nibble 0) (nibble 1) (nibble 5)) ∧
      q.cycle.state.machine.display =
        q.machine.display ^^^ .sprite (Fin.ofNat 64 (q.machine.cpu.get (nibble 0)).toNat)
          (Fin.ofNat 32 (q.machine.cpu.get (nibble 1)).toNat) (Memory.glyph (nibble 0)) := by
  intro program p q
  let pointed : Session := p.past (.pointGlyph (nibble 0))
  have hload : Memory.initial.load program = .ok p.machine.memory := rfl
  have hword : p.currentOpcode = .ok 0xF029 := Memory.readWord_load hload 0 rfl rfl
  obtain ⟨hpoint, hpointed⟩ : p.cycle.result = .ok (.pointGlyph (nibble 0)) ∧
      p.cycle.state = pointed := cycle_of_word rfl hword rfl rfl
  have hnext : pointed.machine.next? = some (.draw (nibble 0) (nibble 1) (nibble 5)) :=
    Machine.next?_eq_some.2 ⟨0xD015, Memory.readWord_load hload 2 rfl rfl, rfl⟩
  have hq : q = pointed := hpointed
  -- These hold of any session, and checking them needs no run of the program.
  have hrun (s : Session) : s.unroll [.load program, .cycle, .cycle] =
      [.load program] ++ .cycle :: ([] ++ .cycle :: []) := rfl
  have hbefore (s : Session) : s.follow [.load program] = (s.load program).state := rfl
  have hbetween (s : Session) : s.follow [] = s := rfl
  have hstored (s : Session) : s.stored ([.load program] ++ .cycle :: []) =
      (s.load program).state.writes .cycle := List.append_nil _
  have hkept : (start {} (Vector.replicate 8 0) none).stored ([.load program] ++ .cycle :: []) =
      [] :=
    (hstored _).trans (writes_of_next? (Machine.next?_eq_some.2 ⟨0xF029, hword, rfl⟩) rfl)
  have hdrawn := (font_outlasts_programs {} (Vector.replicate 8 0) none
    [.load program, .cycle, .cycle]).2.2.1 [.load program] [] [] (hrun _)
    (nibble 0) (nibble 0) (nibble 0) (nibble 1)
  simp only [hbefore, hbetween] at hdrawn
  rw [hpointed] at hdrawn
  rw [hq]
  refine hdrawn hpoint rfl (fun k _ => ?_) rfl hnext trivial
  rw [hkept]
  exact List.not_mem_nil

/-- A program that stores V0 over the first row of the digit zero and then draws that digit. -/
theorem zero_digit_overwritten :
    let s := (launch [0xF0, 0x55, 0xF0, 0x29, 0xD1, 0x15] {} (Vector.replicate 8 0) none).state
    let t := s.cycle.state
    let u := t.cycle.state
    t.machine.memory.get? 0 = some 0x00 ∧ Memory.font[0]? = some 0xF0 ∧
      t.cycle.result = .ok (.pointGlyph (nibble 0)) ∧ t.machine.cpu.get (nibble 0) = 0 ∧
      u.cycle.result = .ok (.draw (nibble 1) (nibble 1) (nibble 5)) ∧
      u.cycle.state.machine.display.pixel 0 0 = false ∧
      (u.machine.display ^^^ .sprite 0 0 (Memory.glyph (nibble 0))).pixel 0 0 = true := by
  intro s t u
  let saved : Session := s.past (.dump (nibble 0))
  let pointed : Session := saved.past (.pointGlyph (nibble 0))
  have hload : Memory.initial.load [0xF0, 0x55, 0xF0, 0x29, 0xD1, 0x15] =
      .ok s.machine.memory := rfl
  have hfits : (s.machine.fetched.execute (.dump (nibble 0))).result = .ok () :=
    Machine.result_dump.2 (by decide)
  have hword : s.currentOpcode = .ok 0xF055 := Memory.readWord_load hload 0 rfl rfl
  have hsaved : t = saved := (cycle_of_word rfl hword rfl hfits).2
  have hcpu : saved.machine.cpu = s.machine.fetched.cpu := s.machine.fetched.cpu_dump _
  have hbyte : saved.machine.memory.get? 0 = some 0x00 :=
    Machine.savedIn_dump hfits (nibble 0) (Fin.le_refl _)
  have hprogram (k : Nat) :
      saved.machine.memory.readWord (0x200 + k) = s.machine.memory.readWord (0x200 + k) := by
    apply Machine.readWord_dump
    show 0 + 0 < _
    omega
  have hsecond : saved.machine.next? = some (.pointGlyph (nibble 0)) := by
    rw [Machine.next?_eq_some, hcpu]
    exact ⟨0xF029, (hprogram 2).trans (Memory.readWord_load hload 2 rfl rfl), rfl⟩
  obtain ⟨hpoint, hpointed⟩ : saved.cycle.result = .ok (.pointGlyph (nibble 0)) ∧
      saved.cycle.state = pointed := cycle_of_next? rfl hsecond rfl
  obtain ⟨hmemory, hdisplay, hregister, hpc⟩ : pointed.machine.memory = saved.machine.memory ∧
      pointed.machine.display = saved.machine.display ∧
      pointed.machine.cpu.get (nibble 1) = saved.machine.cpu.get (nibble 1) ∧
      pointed.machine.cpu.pc = saved.machine.fetched.cpu.pc := saved.past_pointGlyph ..
  have hzero : pointed.machine.cpu.get (nibble 1) = 0 := by
    rw [hregister, hcpu]
    rfl
  have hindex : pointed.machine.cpu.index.toNat = 0 := by
    have hvalue : (saved.machine.fetched.cpu.get (nibble 0)).toNat = (nibble 0).val := by
      show (saved.machine.cpu.get (nibble 0)).toNat = 0
      rw [hcpu]
      rfl
    exact Machine.index_pointGlyph hvalue
  have hthird : pointed.machine.next? = some (.draw (nibble 1) (nibble 1) (nibble 5)) := by
    rw [Machine.next?_eq_some, hpc, hmemory, Machine.fetched, hcpu]
    exact ⟨0xD115, (hprogram 4).trans (Memory.readWord_load hload 4 rfl rfl), rfl⟩
  have hdraws :
      (pointed.machine.fetched.execute (.draw (nibble 1) (nibble 1) (nibble 5))).result =
        .ok () := by
    have hfits : pointed.machine.fetched.cpu.index.toNat = 0 := hindex
    have hrows : pointed.machine.fetched.spriteRows (nibble 1) (nibble 5) ≤ 5 := Nat.min_le_left ..
    rw [Machine.result_draw]
    omega
  obtain ⟨hdraw, hdrawn⟩ := cycle_of_next? rfl hthird hdraws
  have hblank : pointed.machine.display = .blank := by
    rw [hdisplay]
    exact Machine.display_execute s.machine.fetched rfl
  have hfirst : pointed.machine.memory.get? pointed.machine.cpu.index.toNat = some 0x00 := by
    rw [hindex, hmemory]
    exact hbyte
  have hleft : pointed.machine.fetched.spriteLeft (nibble 1) = 0 :=
    congrArg (·.toNat % 64) hzero
  have htop : pointed.machine.fetched.spriteTop (nibble 1) = 0 :=
    congrArg (·.toNat % 32) hzero
  have hcorner : pointed.cycle.state.machine.display.pixel 0 0 = false := by
    have hoff : pointed.machine.fetched.display.pixel 0 0 = false := by
      show pointed.machine.display.pixel 0 0 = false
      rw [hblank, Display.pixel_blank]
    rw [hdrawn]
    refine (Machine.pixel_corner hleft.symm htop.symm (by decide) hdraws hfirst).trans ?_
    rw [hoff, Bool.false_xor]
    decide
  have hu : u = pointed := (congrArg (·.cycle.state) hsaved).trans hpointed
  rw [hu, hsaved]
  refine ⟨hbyte, rfl, hpoint, ?_, hdraw, hcorner, ?_⟩
  · rw [hcpu]
    rfl
  · rw [hblank, Display.pixel_xor, Display.pixel_blank, Bool.false_xor]
    decide

end Session

end ChipEight
