import ChipEight.Proofs.Step

namespace ChipEight

theorem Cpu.length_upTo (c : Cpu) (x : Register) : (c.upTo x).length = x + 1 := by
  have hx := x.isLt
  simp only [upTo, List.length_take, Vector.length_toList]
  omega

namespace Machine

/-- How many bytes from I on an instruction touches. Of a sprite these are the rows on screen. -/
def reach (m : Machine) : Instruction → Nat
  | .storeDecimal _ => 3
  | .dump x | .restore x => x + 1
  | .draw _ y height => min height (32 - (m.cpu.get y).toNat % 32)
  | _ => 0

/-- The faults in which an instruction at an address ends. -/
inductive Fails (m : Machine) (here : UInt16) : Instruction → Fault → Prop
  | unsupported (target : Address) :
    Fails m here (.machineCode target) (.unsupportedCall target.val.toUInt16 here)
  | underflow (h : m.cpu.stack.depth.val = 0) : Fails m here .ret (.stackUnderflow here)
  | overflow (target : Address) (h : m.cpu.stack.depth.val = 16) :
    Fails m here (.call target) (.stackOverflow here)
  | overrun (i : Instruction) (touches : m.reach i ≠ 0)
      (beyond : Memory.size < m.cpu.index.toNat + m.reach i) :
    Fails m here i (.addressOutOfBounds (max m.cpu.index.toNat Memory.size))

theorem fails_of_overrun {m : Machine} {here : UInt16} {i : Instruction} {fault : Fault}
    (h : Memory.overrun m.cpu.index.toNat (m.reach i) = some fault) : m.Fails here i fault := by
  obtain ⟨⟨touches, beyond⟩, hf⟩ := Memory.overrun_eq_some.1 h
  rw [hf]
  exact .overrun i touches beyond

theorem overrun_of_fails {m : Machine} {i : Instruction} (touches : m.reach i ≠ 0)
    (beyond : Memory.size < m.cpu.index.toNat + m.reach i) :
    Memory.overrun m.cpu.index.toNat (m.reach i) =
      some (.addressOutOfBounds (max m.cpu.index.toNat Memory.size)) :=
  Memory.overrun_eq_some.2 ⟨⟨touches, beyond⟩, rfl⟩

theorem fault_store (m : Machine) (bytes : List UInt8) (fault : Fault) :
    (m.store bytes).result = .error fault ↔
      Memory.overrun m.cpu.index.toNat bytes.length = some fault := by
  rw [store, Outcome.result_ofFault_eq_error, Memory.fault_writeMany]

theorem fault_dump (m : Machine) (x : Register) (fault : Fault) :
    (m.store (m.cpu.upTo x)).result = .error fault ↔
      Memory.overrun m.cpu.index.toNat (m.reach (.dump x)) = some fault := by
  rw [fault_store, Cpu.length_upTo]
  rfl

theorem fault_restore (m : Machine) (x : Register) (fault : Fault) :
    (m.restore x).result = .error fault ↔
      Memory.overrun m.cpu.index.toNat (m.reach (.restore x)) = some fault := by
  rw [restore, Outcome.result_ofFault_eq_error, Memory.fault_readMany]
  rfl

theorem fault_draw (m : Machine) (x y : Register) (height : Fin 16) (fault : Fault) :
    (m.draw x y height).result = .error fault ↔
      Memory.overrun m.cpu.index.toNat (m.reach (.draw x y height)) = some fault := by
  rw [reach, ← Memory.fault_readMany m.memory]
  simp only [draw, Fin.val_ofNat]
  split <;> simp_all [Outcome.done, Outcome.fail]

theorem result_execute_error {m : Machine} {i : Instruction} {fault : Fault} :
    (m.execute i).result = .error fault ↔ m.Fails m.cpu.origin i fault := by
  constructor
  · intro h
    cases i with
    | machineCode target =>
      cases h
      exact .unsupported target
    | ret =>
      simp only [execute] at h
      split at h
      · cases h
      · rename_i hp
        cases h
        exact .underflow (CallStack.pop?_eq_none.1 hp)
    | call target =>
      simp only [execute] at h
      split at h
      · cases h
      · rename_i hp
        cases h
        exact .overflow target (CallStack.push?_eq_none.1 hp)
    | awaitKey x =>
      simp only [execute] at h
      split at h <;> cases h
    | draw x y height => exact fails_of_overrun ((fault_draw m x y height fault).1 h)
    | storeDecimal x => exact fails_of_overrun ((fault_store m _ fault).1 h)
    | dump x => exact fails_of_overrun ((fault_dump m x fault).1 h)
    | restore x => exact fails_of_overrun ((fault_restore m x fault).1 h)
    | _ => cases h
  · intro h
    cases h with
    | unsupported target => rfl
    | underflow h => simp only [execute, CallStack.pop?_eq_none.2 h, Outcome.result_fail]
    | overflow target h => simp only [execute, CallStack.push?_eq_none.2 h, Outcome.result_fail]
    | overrun i touches beyond =>
      have h := overrun_of_fails touches beyond
      cases i with
      | draw x y height => exact (fault_draw m x y height _).2 h
      | storeDecimal x => exact (fault_store m _ _).2 h
      | dump x => exact (fault_dump m x _).2 h
      | restore x => exact (fault_restore m x _).2 h
      | _ => cases touches rfl

/-- An instruction that fails leaves the program counter behind it. -/
theorem pc_execute_of_fails {m : Machine} {here : UInt16} {i : Instruction} {fault : Fault}
    (h : m.Fails here i fault) : (m.execute i).state.cpu.pc = m.cpu.pc := by
  cases h with
  | unsupported target => rfl
  | underflow h => simp only [execute, CallStack.pop?_eq_none.2 h, Outcome.state_fail]
  | overflow target h => simp only [execute, CallStack.push?_eq_none.2 h, Outcome.state_fail]
  | overrun i touches beyond =>
    cases i with
    | draw x y height =>
      simp only [execute, draw]
      split <;> rfl
    | storeDecimal x | dump x => simp only [execute, store, Outcome.state_ofFault]
    | restore x =>
      simp only [execute, restore, Outcome.state_ofFault]
      rfl
    | _ => cases touches rfl

theorem result_execute_ok {m : Machine} {i : Instruction} :
    (m.execute i).result = .ok () ↔ ∀ fault, ¬ m.Fails m.cpu.origin i fault := by
  simp only [← result_execute_error]
  cases (m.execute i).result <;> simp

theorem result_execute_of_reach {m : Machine} {i : Instruction} (touches : m.reach i ≠ 0) :
    (m.execute i).result = .ok () ↔ m.cpu.index.toNat + m.reach i ≤ Memory.size := by
  rw [result_execute_ok]
  constructor
  · intro h
    exact Nat.not_lt.1 fun beyond => h _ (.overrun i touches beyond)
  · intro h fault hf
    cases hf with
    | unsupported | underflow | overflow => exact touches rfl
    | overrun _ _ beyond => exact Nat.not_lt.2 h beyond

theorem reach_fetched (m : Machine) (i : Instruction) : m.fetched.reach i = m.reach i := by
  cases i <;> rfl

/-- Fetching changes nothing that decides how an instruction ends. -/
theorem fails_fetched {m : Machine} {here : UInt16} {i : Instruction} {fault : Fault} :
    m.fetched.Fails here i fault ↔ m.Fails here i fault := by
  constructor
  · intro h
    cases h with
    | unsupported target => exact .unsupported target
    | underflow h => exact .underflow h
    | overflow target h => exact .overflow target h
    | overrun i touches beyond =>
      rw [reach_fetched] at touches beyond
      exact .overrun i touches beyond
  · intro h
    cases h with
    | unsupported target => exact .unsupported target
    | underflow h => exact .underflow h
    | overflow target h => exact .overflow target h
    | overrun i touches beyond =>
      rw [← reach_fetched] at touches beyond
      exact .overrun i touches beyond

theorem result_cycle_error {m : Machine} {w : UInt16} {fault : Fault}
    (hw : m.memory.readWord m.cpu.pc.toNat = .ok w) :
    m.cycle.result = .error fault ↔
      Instruction.decode w = none ∧ fault = .unknownOpcode w m.cpu.pc ∨
      ∃ i, Instruction.decode w = some i ∧ m.Fails m.cpu.pc i fault := by
  cases hd : Instruction.decode w with
  | none =>
    rw [cycle_of_unknown hw hd]
    simp [eq_comm]
  | some i =>
    rw [cycle_of_decoded hw hd, Outcome.result_map_eq_error, result_execute_error, fails_fetched,
      fetched, Cpu.origin_advance]
    simp

theorem result_cycle_ok {m : Machine} {w : UInt16} {i : Instruction}
    (hw : m.memory.readWord m.cpu.pc.toNat = .ok w) :
    m.cycle.result = .ok i ↔
      Instruction.decode w = some i ∧ ∀ fault, ¬ m.Fails m.cpu.pc i fault := by
  cases hd : Instruction.decode w with
  | none =>
    rw [cycle_of_unknown hw hd]
    simp
  | some j =>
    have hj : (m.fetched.execute j).result = .ok () ↔ ∀ fault, ¬ m.Fails m.cpu.pc j fault := by
      rw [result_execute_ok, ← m.cpu.origin_advance]
      exact forall_congr' fun fault => not_congr fails_fetched
    rw [cycle_of_decoded hw hd, Outcome.result_map_eq_ok]
    constructor
    · rintro ⟨_, h, rfl⟩
      exact ⟨rfl, hj.1 h⟩
    · rintro ⟨hi, h⟩
      cases hi
      exact ⟨(), hj.2 h, rfl⟩

theorem pc_cycle_of_error {m : Machine} {w : UInt16} {fault : Fault}
    (hw : m.memory.readWord m.cpu.pc.toNat = .ok w) (h : m.cycle.result = .error fault) :
    m.cycle.state.cpu.pc = m.cpu.pc + 2 := by
  cases hd : Instruction.decode w with
  | none =>
    rw [cycle_of_unknown hw hd]
    rfl
  | some i =>
    rw [cycle_of_decoded hw hd] at h ⊢
    rw [Outcome.result_map_eq_error, result_execute_error] at h
    exact pc_execute_of_fails h

end Machine

end ChipEight
