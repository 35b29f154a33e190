import ChipEight.Proofs.Drawing
import ChipEight.Proofs.RegisterDump

namespace ChipEight.Machine

/-- A cycle goes through `n` bytes from I on and fails at the first that is not in memory. -/
def Reaches (m : Machine) (i : Instruction) (n : Nat) : Prop :=
  m.cycle.result =
    if n = 0 ∨ m.cpu.index.toNat + n ≤ 4095 then .ok i
    else .error (.addressOutOfBounds (max m.cpu.index.toNat 4095))

/-- Bytes have gone to memory from I on, as many as memory has room for. -/
structure Stored (m : Machine) (bytes : List UInt8) (n : Machine) : Prop where
  inside : ∀ k byte, bytes[k]? = some byte → m.cpu.index.toNat + k < 4095 →
    n.memory.get? (m.cpu.index.toNat + k) = some byte
  outside : ∀ a, ¬ (m.cpu.index.toNat ≤ a ∧ a < m.cpu.index.toNat + bytes.length) →
    n.memory.get? a = m.memory.get? a
  others : n = { m with memory := n.memory, cpu := { m.cpu with pc := m.cpu.pc + 2 } }

/-- The registers V0 to Vx have come from memory, those whose bytes memory has. -/
structure Loaded (m : Machine) (x : Register) (n : Machine) : Prop where
  inside : ∀ r ≤ x, m.cpu.index.toNat + r < 4095 →
    m.memory.get? (m.cpu.index.toNat + r) = some (n.cpu.get r)
  outside : ∀ r, ¬ (r ≤ x ∧ m.cpu.index.toNat + r < 4095) → n.cpu.get r = m.cpu.get r
  others : n = { m with cpu := { m.cpu with
    registers := n.cpu.registers, pc := m.cpu.pc + 2 } }

/-- The rows of a sprite that memory has are drawn. No register reports it, VF neither. -/
structure PartlyDrawn (m : Machine) (x y : Register) (height : Fin 16) (n : Machine) : Prop where
  inside : ∀ px py, m.Covers x y height px py →
    m.cpu.index.toNat + (py - m.spriteTop y) < 4095 →
    ∃ byte, m.memory.get? (m.cpu.index.toNat + (py - m.spriteTop y)) = some byte ∧
      n.display.pixel px py =
        (m.display.pixel px py ^^ byte.toNat.testBit (7 - (px - m.spriteLeft x)))
  outside : ∀ px py,
    ¬ (m.Covers x y height px py ∧ m.cpu.index.toNat + (py - m.spriteTop y) < 4095) →
    n.display.pixel px py = m.display.pixel px py
  others : n = { m with display := n.display, cpu := { m.cpu with pc := m.cpu.pc + 2 } }

variable {m : Machine} {x y : Register} {height : Fin 16}

/-- A cycle ends as its instruction does that runs along memory. -/
theorem reaches_of_overrun {i : Instruction} {n : Nat} (hnext : m.next? = some i)
    (h : ∀ fault, (m.fetched.execute i).result = .error fault ↔
      Memory.overrun m.cpu.index.toNat n = some fault) : m.Reaches i n := by
  unfold Reaches
  rw [cycle_of_next? hnext]
  by_cases hfits : n = 0 ∨ m.cpu.index.toNat + n ≤ 4095
  · rw [if_pos hfits]
    apply Outcome.result_map_eq_ok.2
    refine ⟨(), ?_, rfl⟩
    cases hresult : (m.fetched.execute i).result with
    | ok => rfl
    | error fault =>
      have hbeyond := (Memory.overrun_eq_some.1 ((h fault).1 hresult)).1
      unfold Memory.size at hbeyond
      omega
  · rw [if_neg hfits]
    apply Outcome.result_map_eq_error.2
    apply (h _).2
    apply Memory.overrun_eq_some.2
    unfold Memory.size
    exact ⟨by omega, rfl⟩

theorem stored_of_execute {i : Instruction} {bytes : List UInt8} (hnext : m.next? = some i)
    (h : m.fetched.execute i = m.fetched.store bytes) : m.Stored bytes m.cycle.state := by
  have hstate : m.cycle.state =
      { m.fetched with memory := (m.memory.writeMany m.cpu.index.toNat bytes).1 } := by
    rw [cycle_of_next? hnext, Outcome.state_map, h, store, Outcome.state_ofFault]
    rfl
  constructor
  case inside =>
    intro k byte hbyte hk
    have hin : m.cpu.index.toNat ≤ m.cpu.index.toNat + k ∧
        m.cpu.index.toNat + k < Memory.size := ⟨Nat.le_add_right _ k, hk⟩
    rw [hstate, Memory.get?_writeMany, if_pos hin, Nat.add_sub_cancel_left, hbyte, Option.some_or]
  case outside =>
    intro a ha
    have hkept := m.fetched.memory_store bytes ha
    rw [store, Outcome.state_ofFault] at hkept
    rw [hstate]
    exact hkept
  case others =>
    rw [hstate]
    rfl

theorem loaded_restore (hnext : m.next? = some (.restore x)) : m.Loaded x m.cycle.state := by
  have hget (r : Register) := m.fetched.get_restore x r
  rw [cycle_of_next? hnext, Outcome.state_map]
  constructor
  case inside =>
    intro r hr hin
    obtain ⟨byte, hbyte⟩ : ∃ byte, m.memory.get? (m.cpu.index.toNat + r) = some byte :=
      ⟨_, m.memory.get?_of_lt (show _ < Memory.size from hin)⟩
    have hthere : m.fetched.memory.get? (m.fetched.cpu.index.toNat + r) = some byte := hbyte
    rw [hget r, if_pos hr, hthere, hbyte, Option.getD_some]
  case outside =>
    intro r hr
    rw [hget r]
    split
    · rename_i hle
      have hbeyond : Memory.size ≤ m.cpu.index.toNat + r := Nat.not_lt.1 fun hin => hr ⟨hle, hin⟩
      have hnone : m.fetched.memory.get? (m.fetched.cpu.index.toNat + r) = none :=
        Memory.get?_eq_none.2 hbeyond
      rw [hnone, Option.getD_none]
      rfl
    · rfl
  case others =>
    simp only [execute, restore, Outcome.state_ofFault, Cpu.setMany]
    rfl

theorem partlyDrawn_draw (hnext : m.next? = some (.draw x y height))
    (h : m.cycle.result ≠ .ok (.draw x y height)) :
    m.PartlyDrawn x y height m.cycle.state := by
  have hdisplay : m.cycle.state.display = m.display ^^^ m.spriteMask x y height := by
    rw [cycle_of_next? hnext, Outcome.state_map]
    exact m.fetched.display_draw x y height
  constructor
  case inside =>
    intro px py hcovers hin
    have hbyte := m.memory.get?_of_lt (show _ < Memory.size from hin)
    refine ⟨_, hbyte, ?_⟩
    rw [hdisplay, Display.pixel_xor, pixel_spriteMask_of_covers hcovers, hbyte, Option.elim_some]
  case outside =>
    intro px py houtside
    have hclear : (m.spriteMask x y height).pixel px py = false := by
      by_cases hcovers : m.Covers x y height px py
      · have hbeyond : Memory.size ≤ m.cpu.index.toNat + (py - m.spriteTop y) :=
          Nat.not_lt.1 fun hin => houtside ⟨hcovers, hin⟩
        rw [pixel_spriteMask_of_covers hcovers, Memory.get?_eq_none.2 hbeyond, Option.elim_none]
      · exact pixel_spriteMask_of_not_covers hcovers
    rw [hdisplay, Display.pixel_xor, hclear, Bool.xor_false]
  case others =>
    rw [cycle_of_next? hnext, execute_draw] at h ⊢
    cases hr : Memory.overrun m.fetched.cpu.index.toNat (m.fetched.spriteRows y height) with
    | none =>
      rw [hr] at h
      exact absurd rfl h
    | some fault => rfl

/-- The decimal digits of a byte. -/
theorem digits_of_byte (value : UInt8) :
    (value / 100).toNat < 10 ∧ (value / 10 % 10).toNat < 10 ∧ (value % 10).toNat < 10 ∧
      100 * (value / 100).toNat + 10 * (value / 10 % 10).toNat + (value % 10).toNat =
        value.toNat := by
  have hlt := value.toNat_lt
  simp only [UInt8.toNat_div, UInt8.toNat_mod, UInt8.reduceToNat]
  omega

/-- Instructions that run along memory fail where it ends, and what they have done before that
stays. Storing digits or registers has written the bytes that memory has room for, loading has set
the registers whose bytes there are, and drawing has drawn the rows that there are without
reporting in VF. -/
theorem transfers_stop_where_memory_ends (m : Machine) (x y : Register) (height : Fin 16) :
    (m.next? = some (.storeDecimal x) → m.Reaches (.storeDecimal x) 3 ∧
      ∃ h t o : UInt8, (h.toNat < 10 ∧ t.toNat < 10 ∧ o.toNat < 10 ∧
          100 * h.toNat + 10 * t.toNat + o.toNat = (m.cpu.get x).toNat) ∧
        m.Stored [h, t, o] m.cycle.state) ∧
    (m.next? = some (.dump x) → m.Reaches (.dump x) (x + 1) ∧
      ∃ bytes : List UInt8,
        (bytes.length = x + 1 ∧ ∀ r ≤ x, bytes[r.val]? = some (m.cpu.get r)) ∧
        m.Stored bytes m.cycle.state) ∧
    (m.next? = some (.restore x) → m.Reaches (.restore x) (x + 1) ∧ m.Loaded x m.cycle.state) ∧
    (m.next? = some (.draw x y height) →
      m.Reaches (.draw x y height) (m.spriteRows y height) ∧
        m.cycle.state.cpu.pc = m.cpu.pc + 2 ∧
        (m.cycle.result = .ok (.draw x y height) → m.Drawn x y height m.cycle.state) ∧
        (m.cycle.result ≠ .ok (.draw x y height) → m.PartlyDrawn x y height m.cycle.state)) ∧
    Checked.cycle m = some m.cycle := by
  refine ⟨?_, ?_, ?_, ?_, Checked.cycle_eq m⟩
  · intro hnext
    refine ⟨reaches_of_overrun hnext (m.fetched.fault_store _), _, _, _,
      digits_of_byte (m.cpu.get x), stored_of_execute hnext rfl⟩
  · intro hnext
    have hbytes : (m.cpu.upTo x).length = x + 1 ∧
        ∀ r ≤ x, (m.cpu.upTo x)[r.val]? = some (m.cpu.get r) :=
      ⟨m.cpu.length_upTo x, fun _ => m.cpu.getElem?_upTo⟩
    exact ⟨reaches_of_overrun hnext (m.fetched.fault_dump x), _, hbytes,
      stored_of_execute hnext rfl⟩
  · intro hnext
    exact ⟨reaches_of_overrun hnext (m.fetched.fault_restore x), loaded_restore hnext⟩
  · intro hnext
    have hpc : m.cycle.state.cpu.pc = m.cpu.pc + 2 := by
      rw [cycle_of_next? hnext, Outcome.state_map]
      exact m.fetched.pc_draw x y height
    exact ⟨reaches_of_overrun hnext (m.fetched.fault_draw x y height), hpc, drawn_cycle,
      partlyDrawn_draw hnext⟩

/-- With I at the last byte of memory, 234 in V0 and 7 in VF: the hundreds digit or V0 is stored, V0
is loaded, and VF is neither loaded nor cleared by a draw. -/
theorem one_byte_before_the_end :
    let loaded (word : List UInt8) :=
      (Session.launch word {} (Vector.replicate 8 0) none).state.machine
    let m (word : List UInt8) : Machine := { loaded word with
      cpu := { ((loaded word).cpu.set .first 234).set .flag 7 with index := 0xFFE } }
    (m [0xF0, 0x33]).cycle.state.memory.get? 4094 = some 2 ∧
      (m [0xFF, 0x55]).cycle.state.memory.get? 4094 = some 234 ∧
      (m [0xFF, 0x65]).cycle.state.cpu.get .first = 0 ∧
      (m [0xFF, 0x65]).cycle.state.cpu.get .flag = 7 ∧
      (m [0xD0, 0x12]).cycle.result = .error (.addressOutOfBounds 4095) ∧
      (m [0xD0, 0x12]).cycle.state.cpu.get .flag = 7 := by
  intro loaded m
  have hflag (word : List UInt8) : (m word).cpu.get .flag = 7 :=
    (Cpu.get_set _ _ _ _).trans (if_pos rfl)
  have hfirst (word : List UInt8) : (m word).cpu.get .first = 234 :=
    (Cpu.get_set_of_ne _ _ (by decide)).trans ((Cpu.get_set _ _ _ _).trans (if_pos rfl))
  have hindex (word : List UInt8) : (m word).cpu.index.toNat = 4094 := rfl
  have hload (high low : UInt8) : Memory.initial.load [high, low] = .ok (m [high, low]).memory :=
    rfl
  have hnext (high low : UInt8) {i : Instruction}
      (hd : Instruction.decode (high.toUInt16 * 256 + low.toUInt16) = some i) :
      (m [high, low]).next? = some i :=
    next?_of_load (hload high low) 0 rfl rfl rfl hd
  obtain ⟨hdecimal, -⟩ := transfers_stop_where_memory_ends (m [0xF0, 0x33]) .first .first 0
  obtain ⟨-, hdump, -⟩ := transfers_stop_where_memory_ends (m [0xFF, 0x55]) .flag .first 0
  obtain ⟨-, -, hrestore, -⟩ := transfers_stop_where_memory_ends (m [0xFF, 0x65]) .flag .first 0
  obtain ⟨-, -, -, hdraw, -⟩ :=
    transfers_stop_where_memory_ends (m [0xD0, 0x12]) (nibble 0) (nibble 1) (nibble 2)
  refine ⟨?_, ?_, ?_, ?_, ?_⟩
  · obtain ⟨-, h, t, o, ⟨hh, ht, ho, hvalue⟩, hstored⟩ := hdecimal (hnext 0xF0 0x33 rfl)
    have hbyte := hstored.inside 0 h rfl (by decide)
    have hundreds : h = 2 := by
      rw [hfirst] at hvalue
      apply UInt8.toNat_inj.1
      simp only [UInt8.reduceToNat] at hvalue ⊢
      omega
    rw [hundreds] at hbyte
    exact hbyte
  · obtain ⟨-, bytes, ⟨-, hbytes⟩, hstored⟩ := hdump (hnext 0xFF 0x55 rfl)
    have hhead := hbytes .first (by decide)
    rw [hfirst] at hhead
    exact hstored.inside 0 234 hhead (by decide)
  · obtain ⟨-, hloaded⟩ := hrestore (hnext 0xFF 0x65 rfl)
    have hzero : (m [0xFF, 0x65]).memory.get? 4094 = some 0 :=
      (Memory.get?_load (hload 0xFF 0x65) 4094).trans (Memory.get?_initial (by decide))
    exact (Option.some.inj (hzero.symm.trans (hloaded.inside .first (by decide) (by decide)))).symm
  · obtain ⟨-, hloaded⟩ := hrestore (hnext 0xFF 0x65 rfl)
    exact (hloaded.outside .flag (by decide)).trans (hflag _)
  · obtain ⟨hreaches, -, -, hpartly⟩ := hdraw (hnext 0xD0 0x12 rfl)
    have hrows : (m [0xD0, 0x12]).spriteRows (nibble 1) (nibble 2) = 2 := rfl
    rw [Reaches, hrows, hindex] at hreaches
    have hfault := hreaches.trans (if_neg (by decide))
    have hkept := (hpartly (by rw [hfault]; exact nofun)).others
    refine ⟨hfault, ?_⟩
    rw [hkept]
    exact hflag _

end ChipEight.Machine
