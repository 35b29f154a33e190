import ChipEight.Proofs.Effects

namespace ChipEight

open Instruction

namespace Machine

/-- What a cycle that has decoded an instruction leaves alone, whether or not the instruction
succeeds. -/
structure Framed (m : Machine) (i : Instruction) (o : Outcome Machine Instruction) : Prop where
  display : i ≠ .clearScreen → (∀ x y height, i ≠ .draw x y height) →
    o.state.display = m.display
  memory : ∀ a, ¬ (m.cpu.index.toNat ≤ a ∧ a < m.cpu.index.toNat + i.stored) →
    o.state.memory.get? a = m.memory.get? a
  stack : o.state.cpu.stack = m.cpu.stack ∨
    o.result = .ok i ∧
      (i = .ret ∧ o.state.cpu.stack.slots = m.cpu.stack.slots ∨
        (∃ target, i = .call target) ∧ ∀ k, k ≠ m.cpu.stack.depth.val →
          o.state.cpu.stack.slots[k]? = m.cpu.stack.slots[k]?)
  index : (∀ target, i ≠ .setIndex target) → (∀ x, i ≠ .addIndex x) →
    (∀ x, i ≠ .pointGlyph x) → o.state.cpu.index = m.cpu.index
  delay : (∀ x, i ≠ .setDelay x) → o.state.cpu.delay = m.cpu.delay
  sound : (∀ x, i ≠ .setSound x) → o.state.cpu.sound = m.cpu.sound
  random : (∀ x mask, i ≠ .random x mask) → o.state.cpu.random = m.cpu.random
  keypad : o.state.cpu.keypad = m.cpu.keypad
  registers : ∀ r, r ∉ i.assigns m.cpu.keypad.latch o.result.isOk →
    o.state.cpu.get r = m.cpu.get r

theorem framed_cycle {m : Machine} {w : UInt16} {i : Instruction}
    (hw : m.memory.readWord m.cpu.pc.toNat = .ok w) (hd : decode w = some i) :
    m.Framed i m.cycle := by
  have heffect := effect_execute m.fetched i
  rw [cycle_of_decoded hw hd]
  constructor
  case display =>
    intro hclear hdraw
    refine display_execute m.fetched (Bool.eq_false_iff.2 fun h => ?_)
    rcases isDisplay_iff.1 h with h | ⟨x, y, height, h⟩
    · exact hclear h
    · exact hdraw x y height h
  case memory => exact fun a => memory_execute m.fetched i
  case stack =>
    rcases stack_execute m.fetched i with
      ⟨address, hi, hok, hp, -⟩ | ⟨target, hi, hok, hp⟩ | ⟨-, hs⟩
    · refine .inr ⟨Outcome.result_map_eq_ok.2 ⟨(), hok, rfl⟩, .inl ⟨hi, ?_⟩⟩
      exact CallStack.slots_pop? hp
    · have hslots (k : Nat) (hk : k ≠ m.fetched.cpu.stack.depth.val) :=
        CallStack.slots_push? hp hk
      exact .inr ⟨Outcome.result_map_eq_ok.2 ⟨(), hok, rfl⟩, .inr ⟨⟨target, hi⟩, hslots⟩⟩
    · exact .inl hs
  case index => exact heffect.index
  case delay => exact heffect.delay
  case sound => exact heffect.sound
  case random => exact heffect.random_eq
  case keypad => exact heffect.keypad
  case registers =>
    intro r hr
    rw [Outcome.isOk_map] at hr
    exact get_execute m.fetched i hr

theorem state_execute_of_early {m : Machine} {here : UInt16} {i : Instruction} {fault : Fault}
    (h : m.Fails here i fault) (early : ∀ address, fault ≠ .addressOutOfBounds address) :
    (m.execute i).state = m := by
  cases h with
  | unsupported target => rfl
  | underflow h => simp only [execute, CallStack.pop?_eq_none.2 h, Outcome.state_fail]
  | overflow target h => simp only [execute, CallStack.push?_eq_none.2 h, Outcome.state_fail]
  | overrun => exact absurd rfl (early _)

/-- A cycle that fails before its instruction has done anything only moves on. -/
theorem state_cycle_of_early {m : Machine} {fault : Fault} (h : m.cycle.result = .error fault)
    (early : ∀ address, fault ≠ .addressOutOfBounds address) : m.cycle.state = m.fetched := by
  rcases cycle_cases m with ⟨fault', hw, hc⟩ | ⟨w, -, -, hc⟩ | ⟨w, i, -, -, hc⟩
  · rw [hc] at h
    cases h
    obtain ⟨address, haddress⟩ := Memory.fault_readWord hw
    exact absurd haddress (early address)
  · rw [hc, Outcome.state_fail]
  · rw [hc] at h ⊢
    rw [Outcome.result_map_eq_error, result_execute_error] at h
    exact state_execute_of_early h early

/-- The frame table of the instruction set. A fetch that fails changes nothing, the failures that
come before an instruction has done anything only move on, and each instruction changes no more
than its own parts. -/
theorem frame_table (m : Machine) :
    (∀ fault, m.memory.readWord m.cpu.pc.toNat = .error fault → m.cycle.state = m) ∧
    (∀ fault, m.cycle.result = .error fault → (∀ address, fault ≠ .addressOutOfBounds address) →
      m.cycle.state = { m with cpu := { m.cpu with pc := m.cpu.pc + 2 } }) ∧
    ∀ w, m.memory.readWord m.cpu.pc.toNat = .ok w →
      (decode w = none → m.cycle.state = { m with cpu := { m.cpu with pc := m.cpu.pc + 2 } }) ∧
      ∀ i, decode w = some i → m.Framed i m.cycle := by
  refine ⟨?_, fun fault => state_cycle_of_early, ?_⟩
  · intro fault h
    rw [cycle_of_fault h, Outcome.state_fail]
  · intro w hw
    refine ⟨?_, fun i => framed_cycle hw⟩
    intro hd
    rw [cycle_of_unknown hw hd, Outcome.state_fail]
    rfl

/-- With I at the last byte, a sprite of two rows and a dump of all registers fail on their way. The
one has touched neither memory nor registers, not even VF, the other no byte below I. A call leaves
the free slots behind its own alone, and a return that has nowhere to go only moves on. -/
theorem frames_at_the_end_of_memory :
    let loaded (high low : UInt8) :=
      (Session.launch [high, low] {} (Vector.replicate 8 0) none).state.machine
    let m (high low : UInt8) : Machine := { loaded high low with
      cpu := { ((loaded high low).cpu.set .first 200).set .flag 9 with index := 0xFFE } }
    let beyond : Fault := .addressOutOfBounds 4095
    ((m 0xD0 0x12).cycle.result = .error beyond ∧
      (m 0xD0 0x12).cycle.state.cpu.stack = (m 0xD0 0x12).cpu.stack ∧
      (∀ a, (m 0xD0 0x12).cycle.state.memory.get? a = (m 0xD0 0x12).memory.get? a) ∧
      ∀ r, (m 0xD0 0x12).cycle.state.cpu.get r = (m 0xD0 0x12).cpu.get r) ∧
    ((m 0xFF 0x55).cycle.result = .error beyond ∧
      (m 0xFF 0x55).cycle.state.display = (m 0xFF 0x55).display ∧
      (∀ a < 0xFFE, (m 0xFF 0x55).cycle.state.memory.get? a = (m 0xFF 0x55).memory.get? a) ∧
      ∀ r, (m 0xFF 0x55).cycle.state.cpu.get r = (m 0xFF 0x55).cpu.get r) ∧
    ((m 0x22 0x04).cycle.result = .ok (.call (Fin.ofNat 4096 0x204)) ∧
      ∀ k, k ≠ 0 →
        (m 0x22 0x04).cycle.state.cpu.stack.slots[k]? = (m 0x22 0x04).cpu.stack.slots[k]?) ∧
    (m 0x00 0xEE).cycle.result = .error (.stackUnderflow 0x200) ∧
      (m 0x00 0xEE).cycle.state =
        { m 0x00 0xEE with cpu := { (m 0x00 0xEE).cpu with pc := 0x202 } } := by
  intro loaded m beyond
  have hload (high low : UInt8) : Memory.initial.load [high, low] = .ok (m high low).memory := rfl
  have hword (high low : UInt8) : (m high low).memory.readWord (m high low).cpu.pc.toNat =
      .ok (high.toUInt16 * 256 + low.toUInt16) := Memory.readWord_load (hload high low) 0 rfl rfl
  have hframe (high low : UInt8) {i : Instruction}
      (hd : decode (high.toUInt16 * 256 + low.toUInt16) = some i) :
      (m high low).Framed i (m high low).cycle :=
    ((frame_table (m high low)).2.2 _ (hword high low)).2 i hd
  have hfails (high low : UInt8) {i : Instruction} {fault : Fault}
      (hd : decode (high.toUInt16 * 256 + low.toUInt16) = some i)
      (h : (m high low).Fails 0x200 i fault) : (m high low).cycle.result = .error fault :=
    (result_cycle_error (hword high low)).2 (.inr ⟨i, hd, h⟩)
  refine ⟨?_, ?_, ?_, ?_⟩
  · have hd : decode (UInt8.toUInt16 0xD0 * 256 + UInt8.toUInt16 0x12) =
        some (.draw (nibble 0) (nibble 1) (nibble 2)) := rfl
    have hresult : (m 0xD0 0x12).cycle.result = .error beyond :=
      hfails 0xD0 0x12 hd (.overrun _ (by decide) (by decide))
    have hframed := hframe 0xD0 0x12 hd
    refine ⟨hresult, ?_, fun a => hframed.memory a (by simp [stored]), fun r => ?_⟩
    · rcases hframed.stack with hstack | ⟨hok, -⟩
      · exact hstack
      · rw [hresult] at hok
        cases hok
    · apply hframed.registers
      rw [hresult]
      exact List.not_mem_nil
  · have hd : decode (UInt8.toUInt16 0xFF * 256 + UInt8.toUInt16 0x55) = some (.dump (nibble 15)) :=
      rfl
    have hresult : (m 0xFF 0x55).cycle.result = .error beyond :=
      hfails 0xFF 0x55 hd (.overrun _ (by decide) (by decide))
    have hframed := hframe 0xFF 0x55 hd
    refine ⟨hresult, hframed.display nofun nofun, fun a ha => ?_, fun r => ?_⟩
    · apply hframed.memory
      rintro ⟨hfrom, -⟩
      exact absurd (Nat.lt_of_lt_of_le ha hfrom) (Nat.lt_irrefl a)
    · exact hframed.registers r List.not_mem_nil
  · have hd : decode (UInt8.toUInt16 0x22 * 256 + UInt8.toUInt16 0x04) =
        some (.call (Fin.ofNat 4096 0x204)) := rfl
    have hresult : (m 0x22 0x04).cycle.result = .ok (.call (Fin.ofNat 4096 0x204)) := by
      rw [cycle_of_decoded (hword 0x22 0x04) hd]
      exact Outcome.result_map_eq_ok.2 ⟨(), rfl, rfl⟩
    refine ⟨hresult, fun k hk => ?_⟩
    rcases (hframe 0x22 0x04 hd).stack with hstack | ⟨-, ⟨hret, -⟩ | ⟨-, hslots⟩⟩
    · rw [hstack]
    · cases hret
    · exact hslots k hk
  · have hd : decode (UInt8.toUInt16 0x00 * 256 + UInt8.toUInt16 0xEE) = some .ret := rfl
    have hresult : (m 0x00 0xEE).cycle.result = .error (.stackUnderflow 0x200) :=
      hfails 0x00 0xEE hd (.underflow rfl)
    exact ⟨hresult, (frame_table _).2.1 _ hresult nofun⟩

end Machine
end ChipEight
