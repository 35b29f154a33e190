import ChipEight.Proofs.Step

namespace ChipEight

/-- The result and the flag of the operations that report in VF, in numbers. Vx is `a`, Vy is `b`,
and `s` is what a shift moves. -/
inductive Alu.Computes (a b s : Int) : Alu → Int → Int → Prop
  | add : Computes a b s .add ((a + b) % 256) (if 255 < a + b then 1 else 0)
  | sub : Computes a b s .sub ((a - b) % 256) (if b ≤ a then 1 else 0)
  | subFrom : Computes a b s .subFrom ((b - a) % 256) (if a ≤ b then 1 else 0)
  | shiftRight : Computes a b s .shiftRight (s / 2) (s % 2)
  | shiftLeft : Computes a b s .shiftLeft (2 * s % 256) (s / 128)

theorem toNat_toUInt8_decide (p : Prop) [Decidable p] :
    ((decide p).toUInt8.toNat : Int) = if p then 1 else 0 := by
  by_cases h : p <;> simp [h, Bool.toUInt8]

/-- The source operand of a shift is what it moves, that of any other operation is Vy. -/
theorem Alu.eval_of_computes {a b s : UInt8} {op : Alu} {value flag : Int}
    (h : op.Computes a.toNat b.toNat s.toNat value flag) :
    ∃ byte report, op.eval a (if op.isShift then s else b) = (byte, some report) ∧
      (byte.toNat : Int) = value ∧ (report.toUInt8.toNat : Int) = flag := by
  have ha := a.toNat_lt
  have hb := b.toNat_lt
  have hs := s.toNat_lt
  cases h with
  | add =>
    refine ⟨a + b, decide (255 < a.toNat + b.toNat), rfl, ?_, ?_⟩
    · rw [UInt8.toNat_add]
      omega
    · rw [toNat_toUInt8_decide]
      split <;> split <;> omega
  | sub =>
    refine ⟨a - b, decide (b ≤ a), rfl, ?_, ?_⟩
    · rw [UInt8.toNat_sub]
      omega
    · rw [toNat_toUInt8_decide]
      simp only [UInt8.le_iff_toNat_le, Int.ofNat_le]
  | subFrom =>
    refine ⟨b - a, decide (a ≤ b), rfl, ?_, ?_⟩
    · rw [UInt8.toNat_sub]
      omega
    · rw [toNat_toUInt8_decide]
      simp only [UInt8.le_iff_toNat_le, Int.ofNat_le]
  | shiftRight =>
    refine ⟨s >>> 1, decide (s % 2 = 1), rfl, ?_, ?_⟩
    · simp [Nat.shiftRight_eq_div_pow]
    · rw [toNat_toUInt8_decide]
      simp only [← UInt8.toNat_inj, UInt8.toNat_mod, UInt8.reduceToNat]
      split <;> omega
  | shiftLeft =>
    refine ⟨s <<< 1, decide (128 ≤ s), rfl, ?_, ?_⟩
    · simp [Nat.shiftLeft_eq]
      omega
    · rw [toNat_toUInt8_decide]
      simp only [UInt8.le_iff_toNat_le, UInt8.reduceToNat]
      split <;> omega

namespace Cpu

variable {c : Cpu}

/-- What a shift moves: its own register in place, or else the second one. -/
def shifted (c : Cpu) (x y : Register) : UInt8 := if c.shiftInPlace then c.get x else c.get y

/-- The flag is in VF, the result is in Vx unless that is VF, and the other registers are as they
were. -/
structure Reported (c : Cpu) (x : Register) (value flag : Int) (d : Cpu) : Prop where
  flag : ((d.get .flag).toNat : Int) = flag
  result : x ≠ .flag → ((d.get x).toNat : Int) = value
  registers : ∀ r, r ≠ x → r ≠ .flag → d.get r = c.get r

theorem get_source (c : Cpu) (op : Alu) (x y : Register) :
    c.get (if op.isShift && c.shiftInPlace then x else y) =
      if op.isShift then c.shifted x y else c.get y := by
  unfold shifted
  cases op.isShift <;> cases c.shiftInPlace <;> rfl

theorem combine_registers (c : Cpu) (op : Alu) (x y : Register) :
    c.combine op x y = { c with registers := (c.combine op x y).registers } := by
  cases op <;> rfl

theorem reported_combine {op : Alu} {x y : Register} {value flag : Int}
    (h : op.Computes (c.get x).toNat (c.get y).toNat (c.shifted x y).toNat value flag) :
    c.Reported x value flag (c.combine op x y) := by
  obtain ⟨byte, report, heval, hvalue, hflag⟩ := Alu.eval_of_computes h
  have hcombine : c.combine op x y = (c.set x byte).setFlag report := by
    simp only [combine, get_source, heval]
    rfl
  rw [hcombine, setFlag]
  constructor
  case flag =>
    rw [get_set, if_pos rfl]
    exact hflag
  case result =>
    intro hx
    rw [get_set_of_ne _ _ hx, get_set, if_pos rfl]
    exact hvalue
  case registers =>
    intro r hx hr
    rw [get_set_of_ne _ _ hr, get_set_of_ne _ _ hx]

end Cpu

namespace Machine

variable {m : Machine} {x y : Register}

/-- An instruction that has no way to fail. -/
theorem cycle_of_withCpu {i : Instruction} {c : Cpu} (h : m.next? = some i)
    (hi : m.fetched.execute i = m.fetched.withCpu c) :
    m.cycle.result = .ok i ∧ m.cycle.state = { m with cpu := c } := by
  rw [cycle_of_next? h, hi]
  exact ⟨rfl, rfl⟩

/-- Arithmetic on two registers reads both before it writes any, and the flag is written last. So
the operands decide result and flag even where the instruction names one register twice or names
VF. Adding a byte to a register or a register to I wraps around and reports nothing. -/
theorem operands_decide_result_and_flag (m : Machine) (x y : Register) :
    (∀ op value flag,
      op.Computes (m.cpu.get x).toNat (m.cpu.get y).toNat (m.cpu.shifted x y).toNat value flag →
      m.next? = some (.combine op x y) →
      m.cycle.result = .ok (.combine op x y) ∧
        m.cpu.Reported x value flag m.cycle.state.cpu ∧
        m.cycle.state = { m with cpu := { m.cpu with
          registers := m.cycle.state.cpu.registers, pc := m.cpu.pc + 2 } }) ∧
    (∀ byte, m.next? = some (.increment x byte) →
      m.cycle.result = .ok (.increment x byte) ∧
        (m.cycle.state.cpu.get x).toNat = ((m.cpu.get x).toNat + byte.toNat) % 256 ∧
        (∀ r, r ≠ x → m.cycle.state.cpu.get r = m.cpu.get r) ∧
        m.cycle.state = { m with cpu := { m.cpu with
          registers := m.cycle.state.cpu.registers, pc := m.cpu.pc + 2 } }) ∧
    (m.next? = some (.addIndex x) →
      m.cycle.result = .ok (.addIndex x) ∧
        m.cycle.state.cpu.index.toNat =
          (m.cpu.index.toNat + (m.cpu.get x).toNat) % 65536 ∧
        m.cycle.state = { m with cpu := { m.cpu with
          index := m.cycle.state.cpu.index, pc := m.cpu.pc + 2 } }) := by
  refine ⟨?_, ?_, ?_⟩
  · intro op value flag hop hnext
    obtain ⟨hresult, hstate⟩ := cycle_of_withCpu hnext rfl
    have hreported : m.cpu.advance.Reported x value flag (m.cpu.advance.combine op x y) :=
      Cpu.reported_combine hop
    rw [hstate]
    refine ⟨hresult, ⟨hreported.flag, hreported.result, hreported.registers⟩, ?_⟩
    exact congrArg (fun c => { m with cpu := c }) (m.cpu.advance.combine_registers op x y)
  · intro byte hnext
    obtain ⟨hresult, hstate⟩ := cycle_of_withCpu hnext rfl
    rw [hstate]
    refine ⟨hresult, ?_, ?_, rfl⟩
    · show ((m.cpu.advance.set x (m.cpu.get x + byte)).get x).toNat = _
      rw [Cpu.get_set, if_pos rfl, UInt8.toNat_add]
    · intro r hr
      exact Cpu.get_set_of_ne _ _ hr
  · intro hnext
    obtain ⟨hresult, hstate⟩ := cycle_of_withCpu hnext rfl
    rw [hstate]
    refine ⟨hresult, ?_, rfl⟩
    show (m.cpu.index + (m.cpu.get x).toUInt16).toNat = _
    rw [UInt16.toNat_add, UInt8.toNat_toUInt16]

/-- With 200 in VF: added to itself it keeps the carry and not the sum, adding a byte to it wraps
around, and it can be added to I. -/
theorem flag_register_as_operand :
    let loaded (word : List UInt8) :=
      (Session.launch word {} (Vector.replicate 8 0) none).state.machine
    let m (word : List UInt8) : Machine :=
      { loaded word with cpu := (loaded word).cpu.set .flag 200 }
    ((m [0x8F, 0xF4]).cycle.state.cpu.get .flag).toNat = 1 ∧
      ((m [0x7F, 0x64]).cycle.state.cpu.get .flag).toNat = 44 ∧
      (m [0xFF, 0x1E]).cycle.state.cpu.index.toNat = 200 := by
  intro loaded m
  have hflag (word : List UInt8) : (m word).cpu.get .flag = 200 :=
    (Cpu.get_set _ _ _ _).trans (if_pos rfl)
  have hnext (high low : UInt8) {i : Instruction}
      (hd : Instruction.decode (high.toUInt16 * 256 + low.toUInt16) = some i) :
      (m [high, low]).next? = some i := by
    have hload : Memory.initial.load [high, low] = .ok (m [high, low]).memory := rfl
    exact next?_of_load hload 0 rfl rfl rfl hd
  obtain ⟨hadd, -, -⟩ := operands_decide_result_and_flag (m [0x8F, 0xF4]) .flag .flag
  obtain ⟨-, hincrement, -⟩ := operands_decide_result_and_flag (m [0x7F, 0x64]) .flag .flag
  obtain ⟨-, -, haddIndex⟩ := operands_decide_result_and_flag (m [0xFF, 0x1E]) .flag .flag
  refine ⟨?_, ?_, ?_⟩
  · obtain ⟨-, hreported, -⟩ := hadd _ _ _ .add (hnext 0x8F 0xF4 rfl)
    have hcarry := hreported.flag
    rw [hflag, if_pos (by decide)] at hcarry
    omega
  · obtain ⟨-, hsum, -⟩ := hincrement _ (hnext 0x7F 0x64 rfl)
    rw [hsum, hflag]
    rfl
  · obtain ⟨-, hindex, -⟩ := haddIndex (hnext 0xFF 0x1E rfl)
    have hzero : (m [0xFF, 0x1E]).cpu.index = 0 := rfl
    rw [hindex, hflag, hzero]
    rfl

end Machine

end ChipEight
