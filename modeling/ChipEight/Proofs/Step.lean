import ChipEight.Proofs.MemoryRange
import ChipEight.Session

namespace ChipEight

theorem Cpu.origin_advance (c : Cpu) : c.advance.origin = c.pc := by
  simp [origin, advance]

theorem Cpu.toNat_advance {c : Cpu} (h : c.pc.toNat + 2 < 65536) :
    c.advance.pc.toNat = c.pc.toNat + 2 := by
  rw [advance, UInt16.toNat_add]
  exact Nat.mod_eq_of_lt h

namespace Machine

open Instruction

/-- The machine once it has moved past the word at the program counter. -/
def fetched (m : Machine) : Machine := { m with cpu := m.cpu.advance }

/-- The instruction at the program counter, if the word there is one. -/
def next? (m : Machine) : Option Instruction :=
  match m.memory.readWord m.cpu.pc.toNat with
  | .ok w => decode w
  | .error _ => none

theorem next?_eq_some {m : Machine} {i : Instruction} :
    m.next? = some i ↔ ∃ w, m.memory.readWord m.cpu.pc.toNat = .ok w ∧ decode w = some i := by
  unfold next?
  split
  · rename_i w h
    rw [h]
    constructor
    · exact fun hd => ⟨w, rfl, hd⟩
    · rintro ⟨_, hw, hd⟩
      cases hw
      exact hd
  · rename_i fault h
    rw [h]
    exact ⟨nofun, nofun⟩

/-- A program that has been loaded has its instructions where the counter finds them. -/
theorem next?_of_load {m : Machine} {before : Memory} {program : List UInt8}
    (hload : before.load program = .ok m.memory) (k : Nat) {high low : UInt8}
    (hh : program[k]? = some high) (hl : program[k + 1]? = some low)
    (hpc : m.cpu.pc.toNat = Memory.programStart + k) {i : Instruction}
    (hd : decode (high.toUInt16 * 256 + low.toUInt16) = some i) : m.next? = some i := by
  rw [next?_eq_some, hpc]
  exact ⟨_, Memory.readWord_load hload k hh hl, hd⟩

/-- A word that can be fetched lies low enough for the counter not to wrap behind it. -/
theorem toNat_fetched {m : Machine} {w : UInt16} (h : m.memory.readWord m.cpu.pc.toNat = .ok w) :
    m.fetched.cpu.pc.toNat = m.cpu.pc.toNat + 2 ∧ m.cpu.pc.toNat + 2 ≤ 0xFFF := by
  have hlt : m.cpu.pc.toNat + 1 < 4095 := Memory.lt_of_readWord h
  exact ⟨Cpu.toNat_advance (by omega), by omega⟩

theorem cycle_of_fault {m : Machine} {fault : Fault}
    (h : m.memory.readWord m.cpu.pc.toNat = .error fault) : m.cycle = .fail m fault [] := by
  rw [cycle, h]

theorem cycle_of_unknown {m : Machine} {w : UInt16} (h : m.memory.readWord m.cpu.pc.toNat = .ok w)
    (hd : decode w = none) :
    m.cycle = .fail m.fetched (.unknownOpcode w m.cpu.pc)
      (m.cpu.report "unknown opcode" [("opcode", opcodeText w), ("pc", counterText m.cpu.pc)]) := by
  simp only [cycle, h, hd]
  rfl

theorem cycle_of_decoded {m : Machine} {w : UInt16} {i : Instruction}
    (h : m.memory.readWord m.cpu.pc.toNat = .ok w) (hd : decode w = some i) :
    m.cycle = (m.fetched.execute i).map fun _ => i := by
  simp only [cycle, h, hd]
  rfl

theorem cycle_of_next? {m : Machine} {i : Instruction} (h : m.next? = some i) :
    m.cycle = (m.fetched.execute i).map fun _ => i := by
  obtain ⟨w, hw, hd⟩ := next?_eq_some.1 h
  exact cycle_of_decoded hw hd

/-- Memory that no program has filled holds calls of native code. -/
theorem result_cycle_of_zero {m : Machine} (h : m.memory.readWord m.cpu.pc.toNat = .ok 0) :
    m.cycle.result = .error (.unsupportedCall 0 m.cpu.pc) := by
  rw [cycle_of_decoded h rfl, ← m.cpu.origin_advance]
  rfl

/-- All that a cycle can do. -/
theorem cycle_cases (m : Machine) :
    (∃ fault, m.memory.readWord m.cpu.pc.toNat = .error fault ∧ m.cycle = .fail m fault []) ∨
    (∃ w, m.memory.readWord m.cpu.pc.toNat = .ok w ∧ decode w = none ∧
      m.cycle = .fail m.fetched (.unknownOpcode w m.cpu.pc)
        (m.cpu.report "unknown opcode"
          [("opcode", opcodeText w), ("pc", counterText m.cpu.pc)])) ∨
    (∃ w i, m.memory.readWord m.cpu.pc.toNat = .ok w ∧ decode w = some i ∧
      m.cycle = (m.fetched.execute i).map fun _ => i) := by
  cases h : m.memory.readWord m.cpu.pc.toNat with
  | error fault => exact .inl ⟨fault, rfl, cycle_of_fault h⟩
  | ok w =>
    cases hd : decode w with
    | none => exact .inr (.inl ⟨w, rfl, hd, cycle_of_unknown h hd⟩)
    | some i => exact .inr (.inr ⟨w, i, rfl, hd, cycle_of_decoded h hd⟩)

theorem cycle_ok {m : Machine} {i : Instruction} (h : m.cycle.result = .ok i) :
    ∃ w, m.memory.readWord m.cpu.pc.toNat = .ok w ∧ decode w = some i ∧
      m.cycle = (m.fetched.execute i).map fun _ => i := by
  rcases cycle_cases m with ⟨fault, -, hc⟩ | ⟨w, -, -, hc⟩ | ⟨w, j, hw, hd, hc⟩
  · rw [hc] at h
    cases h
  · rw [hc] at h
    cases h
  · rw [hc] at h
    obtain ⟨_, -, hj⟩ := Outcome.result_map_eq_ok.1 h
    subst hj
    exact ⟨w, hw, hd, hc⟩

end Machine

namespace Session

/-- The session behind an instruction that its machine executes. -/
def past (s : Session) (i : Instruction) : Session :=
  { s with machine := (s.machine.fetched.execute i).state }

theorem cycle_of_halted {s : Session} (h : s.halted = true) : s.cycle = .fail s .halted [] := by
  rw [cycle, if_pos h]

theorem cycle_of_ok {s : Session} {i : Instruction} (live : s.halted = false)
    (h : s.machine.cycle.result = .ok i) :
    s.cycle = ⟨.ok i, { s with machine := s.machine.cycle.state }, s.machine.cycle.records⟩ := by
  simp only [cycle, live, h]
  rfl

theorem cycle_of_error {s : Session} {fault : Fault} (live : s.halted = false)
    (h : s.machine.cycle.result = .error fault) :
    s.cycle = .fail { s with machine := s.machine.cycle.state, halted := true } fault
      (s.machine.cycle.records ++
        Log.emit s.logger .error "halting" [("error", fault.message)]) := by
  simp only [cycle, live, h]
  rfl

theorem result_cycle {s : Session} (live : s.halted = false) :
    s.cycle.result = s.machine.cycle.result := by
  cases h : s.machine.cycle.result with
  | ok i => rw [cycle_of_ok live h]
  | error fault => rw [cycle_of_error live h, Outcome.result_fail]

theorem machine_cycle {s : Session} (live : s.halted = false) :
    s.cycle.state.machine = s.machine.cycle.state := by
  cases h : s.machine.cycle.result with
  | ok i => rw [cycle_of_ok live h]
  | error fault => rw [cycle_of_error live h, Outcome.state_fail]

end Session

end ChipEight
