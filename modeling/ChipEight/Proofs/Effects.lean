import ChipEight.Proofs.Faults
import ChipEight.Proofs.Frames

namespace ChipEight

/-- The operations that report in VF. -/
def Alu.reports : Alu → Bool
  | .copy | .or | .and | .xor => false
  | .add | .sub | .shiftRight | .subFrom | .shiftLeft => true

namespace Instruction

/-- The registers that an instruction can write. A draw reports only if it succeeds. -/
def assigns (latch : Option Key) (succeeds : Bool) : Instruction → List Register
  | .load x _ | .increment x _ | .random x _ | .readDelay x => [x]
  | .combine op x _ => if op.reports then [x, .flag] else [x]
  | .awaitKey x => if latch.isSome then [x] else []
  | .draw .. => if succeeds then [.flag] else []
  | .restore x => (List.finRange 16).filter (· ≤ x)
  | _ => []

/-- How many bytes from I on an instruction writes. -/
def stored : Instruction → Nat
  | .storeDecimal _ => 3
  | .dump x => x + 1
  | _ => 0

end Instruction

namespace Cpu

theorem get_combine (c : Cpu) (op : Alu) (x y : Register) {r : Register} (hx : r ≠ x)
    (hflag : op.reports = true → r ≠ .flag) : (c.combine op x y).get r = c.get r := by
  cases op with
  | copy | or | and | xor => exact get_set_of_ne c _ hx
  | add | sub | shiftRight | subFrom | shiftLeft =>
    exact (get_set_of_ne _ _ (hflag rfl)).trans (get_set_of_ne c _ hx)

/-- What an instruction makes of a processor. Only a few touch more than the registers and the
program counter. -/
inductive Effect (c : Cpu) : Instruction → Cpu → Prop
  | plain (i : Instruction) (registers : Vector UInt8 16) (pc : UInt16) :
    Effect c i { c with registers := registers, pc := pc }
  | ret (address : UInt16) (stack : CallStack) (h : c.stack.pop? = some (address, stack)) :
    Effect c .ret { c with stack := stack, pc := address }
  | call (target : Address) (stack : CallStack) (h : c.stack.push? c.pc = some stack) :
    Effect c (.call target) { c with stack := stack, pc := target.val.toUInt16 }
  | setIndex (target : Address) :
    Effect c (.setIndex target) { c with index := target.val.toUInt16 }
  | addIndex (x : Register) :
    Effect c (.addIndex x) { c with index := c.index + (c.get x).toUInt16 }
  | pointGlyph (x : Register) :
    Effect c (.pointGlyph x) { c with index := (c.get x).toUInt16 * Memory.glyphHeight.toUInt16 }
  | setDelay (x : Register) : Effect c (.setDelay x) { c with delay := c.get x }
  | setSound (x : Register) : Effect c (.setSound x) { c with sound := c.get x }
  | random (x : Register) (mask : UInt8) :
    Effect c (.random x mask)
      { c.set x (c.random.next.1 &&& mask) with random := c.random.next.2 }

namespace Effect

variable {c d : Cpu} {i : Instruction}

theorem stack (h : c.Effect i d) (hret : i ≠ .ret) (hcall : ∀ target, i ≠ .call target) :
    d.stack = c.stack := by
  cases h with
  | ret => exact absurd rfl hret
  | call => exact absurd rfl (hcall _)
  | _ => rfl

theorem index (h : c.Effect i d) (hset : ∀ target, i ≠ .setIndex target)
    (hadd : ∀ x, i ≠ .addIndex x) (hpoint : ∀ x, i ≠ .pointGlyph x) : d.index = c.index := by
  cases h with
  | setIndex => exact absurd rfl (hset _)
  | addIndex => exact absurd rfl (hadd _)
  | pointGlyph => exact absurd rfl (hpoint _)
  | _ => rfl

theorem delay (h : c.Effect i d) (hset : ∀ x, i ≠ .setDelay x) : d.delay = c.delay := by
  cases h with
  | setDelay => exact absurd rfl (hset _)
  | _ => rfl

theorem sound (h : c.Effect i d) (hset : ∀ x, i ≠ .setSound x) : d.sound = c.sound := by
  cases h with
  | setSound => exact absurd rfl (hset _)
  | _ => rfl

theorem random_eq (h : c.Effect i d) (hrandom : ∀ x mask, i ≠ .random x mask) :
    d.random = c.random := by
  cases h with
  | random => exact absurd rfl (hrandom _ _)
  | _ => rfl

theorem keypad (h : c.Effect i d) : d.keypad = c.keypad := by
  cases h <;> rfl

end Effect

/-- A change to a processor that keeps clear of the registers and of the index. -/
structure SparesRegisters (g : Cpu → Cpu) : Prop where
  index : ∀ c, (g c).index = c.index
  get : ∀ c x, (g c).get x = c.get x
  set : ∀ c x byte, (g c).set x byte = g (c.set x byte)
  setMany : ∀ c bytes, (g c).setMany bytes = g (c.setMany bytes)

end Cpu

namespace Machine

theorem effect_execute (m : Machine) (i : Instruction) :
    m.cpu.Effect i (m.execute i).state.cpu := by
  cases i with
  | ret =>
    simp only [execute]
    split
    · rename_i h
      exact .ret _ _ h
    · exact .plain _ _ _
  | call target =>
    simp only [execute]
    split
    · rename_i h
      exact .call _ _ h
    · exact .plain _ _ _
  | skipIf test =>
    simp only [execute]
    split <;> exact .plain _ _ _
  | awaitKey x =>
    simp only [execute]
    split <;> exact .plain _ _ _
  | combine op x y => cases op <;> exact .plain _ _ _
  | draw x y height =>
    simp only [execute, draw]
    split <;> exact .plain _ _ _
  | storeDecimal x | dump x =>
    simp only [execute, store, Outcome.state_ofFault]
    exact .plain _ _ _
  | restore x =>
    simp only [execute, restore, Outcome.state_ofFault]
    exact .plain _ _ _
  | setIndex target => exact .setIndex target
  | addIndex x => exact .addIndex x
  | pointGlyph x => exact .pointGlyph x
  | setDelay x => exact .setDelay x
  | setSound x => exact .setSound x
  | random x mask => exact .random x mask
  | _ => exact .plain _ _ _

/-- The stack moves with the instructions for it, when they succeed. -/
theorem stack_execute (m : Machine) (i : Instruction) :
    (∃ address, i = .ret ∧ (m.execute i).result = .ok () ∧
      m.cpu.stack.pop? = some (address, (m.execute i).state.cpu.stack) ∧
      (m.execute i).state.cpu.pc = address) ∨
    (∃ target, i = .call target ∧ (m.execute i).result = .ok () ∧
      m.cpu.stack.push? m.cpu.pc = some (m.execute i).state.cpu.stack) ∨
    ((m.execute i).result = .ok () → i ≠ .ret ∧ ∀ target, i ≠ .call target) ∧
      (m.execute i).state.cpu.stack = m.cpu.stack := by
  by_cases hret : i = .ret
  · subst hret
    cases hp : m.cpu.stack.pop? with
    | none =>
      refine .inr (.inr ?_)
      simp only [execute, hp]
      refine ⟨fun h => ?_, rfl⟩
      cases h
    | some popped =>
      refine .inl ⟨popped.1, rfl, ?_⟩
      simp only [execute, hp]
      exact ⟨rfl, rfl, rfl⟩
  · by_cases hcall : ∃ target, i = .call target
    · obtain ⟨target, ht⟩ := hcall
      subst ht
      cases hp : m.cpu.stack.push? m.cpu.pc with
      | none =>
        refine .inr (.inr ?_)
        simp only [execute, hp]
        refine ⟨fun h => ?_, rfl⟩
        cases h
      | some pushed =>
        refine .inr (.inl ⟨target, rfl, ?_⟩)
        simp only [execute, hp]
        exact ⟨rfl, rfl⟩
    · have hstack := (effect_execute m i).stack hret (not_exists.1 hcall)
      exact .inr (.inr ⟨fun _ => ⟨hret, not_exists.1 hcall⟩, hstack⟩)

/-- A call leaves the address behind its own word, and a return goes where the latest one says. -/
theorem stack_cycle (m : Machine) :
    (m.cycle.result = .ok .ret ∧
      m.cpu.stack.pop? = some (m.cycle.state.cpu.pc, m.cycle.state.cpu.stack)) ∨
    (∃ target, m.cycle.result = .ok (.call target) ∧
      m.cpu.stack.push? (m.cpu.pc + 2) = some m.cycle.state.cpu.stack) ∨
    (m.cycle.result ≠ .ok .ret ∧ ∀ target, m.cycle.result ≠ .ok (.call target)) ∧
      m.cycle.state.cpu.stack = m.cpu.stack := by
  rcases cycle_cases m with ⟨fault, -, hc⟩ | ⟨w, -, -, hc⟩ | ⟨w, i, -, -, hc⟩
  · rw [hc]
    exact .inr (.inr ⟨⟨nofun, nofun⟩, rfl⟩)
  · rw [hc]
    exact .inr (.inr ⟨⟨nofun, nofun⟩, rfl⟩)
  · rw [hc]
    rcases stack_execute m.fetched i with
      ⟨address, hi, hok, hp, hpc⟩ | ⟨target, hi, hok, hp⟩ | ⟨hnot, hs⟩
    · subst hi
      refine .inl ⟨Outcome.result_map_eq_ok.2 ⟨(), hok, rfl⟩, ?_⟩
      rw [Outcome.state_map, hpc]
      exact hp
    · subst hi
      exact .inr (.inl ⟨target, Outcome.result_map_eq_ok.2 ⟨(), hok, rfl⟩, hp⟩)
    · refine .inr (.inr ⟨⟨fun h => ?_, fun target h => ?_⟩, hs⟩)
      · obtain ⟨_, hok, hi⟩ := Outcome.result_map_eq_ok.1 h
        exact (hnot hok).1 hi
      · obtain ⟨_, hok, hi⟩ := Outcome.result_map_eq_ok.1 h
        exact (hnot hok).2 target hi

/-- A random instruction cannot fail, and takes one byte. -/
theorem random_cycle_of_ok {m : Machine} {x : Register} {mask : UInt8}
    (h : m.cycle.result = .ok (.random x mask)) :
    m.cycle.state.cpu.get x = m.cpu.random.next.1 &&& mask ∧
      m.cycle.state.cpu.random = m.cpu.random.next.2 := by
  obtain ⟨w, -, -, hc⟩ := cycle_ok h
  rw [hc]
  refine ⟨?_, rfl⟩
  show (m.fetched.cpu.set x _).get x = _
  rw [Cpu.get_set, if_pos rfl]
  rfl

theorem random_cycle {m : Machine} (h : ∀ x mask, m.cycle.result ≠ .ok (.random x mask)) :
    m.cycle.state.cpu.random = m.cpu.random := by
  rcases cycle_cases m with ⟨fault, -, hc⟩ | ⟨w, -, -, hc⟩ | ⟨w, i, -, -, hc⟩
  · rw [hc, Outcome.state_fail]
  · rw [hc, Outcome.state_fail]
    rfl
  · rw [hc] at h ⊢
    refine (effect_execute m.fetched i).random_eq fun x mask hi => h x mask ?_
    rw [hi]
    rfl

/-- Only callers press keys. -/
theorem keypad_cycle (m : Machine) : m.cycle.state.cpu.keypad = m.cpu.keypad := by
  rcases cycle_cases m with ⟨fault, -, hc⟩ | ⟨w, -, -, hc⟩ | ⟨w, i, -, -, hc⟩
  · rw [hc, Outcome.state_fail]
  · rw [hc, Outcome.state_fail]
    rfl
  · rw [hc]
    exact (effect_execute m.fetched i).keypad

theorem memory_store (m : Machine) (bytes : List UInt8) {a : Nat}
    (h : ¬ (m.cpu.index.toNat ≤ a ∧ a < m.cpu.index.toNat + bytes.length)) :
    (m.store bytes).state.memory.get? a = m.memory.get? a := by
  simp only [store, Outcome.state_ofFault, Memory.get?_writeMany]
  split
  · rename_i ha
    have hnone : bytes[a - m.cpu.index.toNat]? = none := by
      rw [List.getElem?_eq_none_iff]
      omega
    rw [hnone, Option.none_or]
  · rfl

theorem memory_execute (m : Machine) (i : Instruction) {a : Nat}
    (h : ¬ (m.cpu.index.toNat ≤ a ∧ a < m.cpu.index.toNat + i.stored)) :
    (m.execute i).state.memory.get? a = m.memory.get? a := by
  cases i with
  | ret | call | awaitKey =>
    simp only [execute]
    split <;> rfl
  | draw x y height =>
    simp only [execute, draw]
    split <;> rfl
  | storeDecimal x => exact memory_store m _ h
  | dump x =>
    apply memory_store
    rw [Cpu.length_upTo]
    exact h
  | restore x => simp only [execute, restore, Outcome.state_ofFault]
  | _ => rfl

theorem get_execute (m : Machine) (i : Instruction) {r : Register}
    (h : r ∉ i.assigns m.cpu.keypad.latch (m.execute i).result.isOk) :
    (m.execute i).state.cpu.get r = m.cpu.get r := by
  cases i with
  | load x byte | increment x byte | random x mask | readDelay x =>
    exact m.cpu.get_set_of_ne _ (List.ne_of_not_mem_cons h)
  | combine op x y =>
    simp only [Instruction.assigns] at h
    split at h
    · rw [List.mem_cons, List.mem_singleton, not_or] at h
      exact m.cpu.get_combine op x y h.1 fun _ => h.2
    · rename_i hsilent
      exact m.cpu.get_combine op x y (List.ne_of_not_mem_cons h) fun hreports =>
        absurd hreports hsilent
  | awaitKey x =>
    cases hlatch : m.cpu.keypad.latch with
    | none =>
      simp only [execute, hlatch]
      rfl
    | some key =>
      simp only [execute, hlatch]
      rw [hlatch] at h
      exact m.cpu.get_set_of_ne _ (List.ne_of_not_mem_cons h)
  | draw x y height =>
    simp only [execute, draw] at h ⊢
    split
    · rename_i hfault
      rw [hfault] at h
      exact m.cpu.get_set_of_ne _ (List.ne_of_not_mem_cons h)
    · rfl
  | restore x =>
    have hbeyond : ¬ r.val < x + 1 := by
      intro hr
      exact h (List.mem_filter.2 ⟨List.mem_finRange r, decide_eq_true (Nat.le_of_lt_succ hr)⟩)
    simp only [execute, restore, Outcome.state_ofFault]
    rw [Cpu.get_setMany, List.getD_eq_getElem?_getD, Memory.getElem?_readMany, if_neg hbeyond,
      Option.getD_none]
  | ret | call =>
    simp only [execute]
    split <;> rfl
  | skipIf test =>
    simp only [execute]
    split <;> rfl
  | storeDecimal x | dump x => simp only [execute, store, Outcome.state_ofFault]
  | _ => rfl

/-- The machine with something done to its processor. -/
def mapCpu (m : Machine) (g : Cpu → Cpu) : Machine := { m with cpu := g m.cpu }

section

variable {g : Cpu → Cpu} (h : Cpu.SparesRegisters g) (m : Machine)

include h

theorem store_mapCpu (bytes : List UInt8) :
    (m.mapCpu g).store bytes = (m.store bytes).within (·.mapCpu g) := by
  have hindex : (m.mapCpu g).cpu.index = m.cpu.index := h.index m.cpu
  have hmemory : (m.mapCpu g).memory = m.memory := rfl
  simp only [store, hindex, hmemory]
  cases (m.memory.writeMany m.cpu.index.toNat bytes).2 <;> rfl

theorem restore_mapCpu (x : Register) :
    (m.mapCpu g).restore x = (m.restore x).within (·.mapCpu g) := by
  have hindex : (m.mapCpu g).cpu.index = m.cpu.index := h.index m.cpu
  have hmemory : (m.mapCpu g).memory = m.memory := rfl
  have hmany (bytes : List UInt8) : (m.mapCpu g).cpu.setMany bytes = g (m.cpu.setMany bytes) :=
    h.setMany m.cpu bytes
  simp only [restore, hindex, hmemory, hmany]
  -- What is loaded into the registers does not matter, and comparing it is slow.
  generalize m.cpu.setMany (m.memory.readMany m.cpu.index.toNat (x + 1)).1 = filled
  cases (m.memory.readMany m.cpu.index.toNat (x + 1)).2 <;> rfl

theorem draw_mapCpu (x y : Register) (height : Fin 16) :
    (m.mapCpu g).draw x y height = (m.draw x y height).within (·.mapCpu g) := by
  have hindex : (m.mapCpu g).cpu.index = m.cpu.index := h.index m.cpu
  have hget (r : Register) : (m.mapCpu g).cpu.get r = m.cpu.get r := h.get m.cpu r
  have hmemory : (m.mapCpu g).memory = m.memory := rfl
  have hdisplay : (m.mapCpu g).display = m.display := rfl
  have hflag (hit : Bool) : (m.mapCpu g).cpu.setFlag hit = g (m.cpu.setFlag hit) :=
    h.set m.cpu .flag hit.toUInt8
  simp only [draw, hindex, hget, hmemory, hdisplay, hflag]
  split <;> rfl

end

end Machine

end ChipEight
