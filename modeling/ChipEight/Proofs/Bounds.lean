import ChipEight.Proofs.Checked

namespace ChipEight

/-- A call stack holds addresses, and no open call returns to the very beginning of memory. -/
structure CallStack.Bounded (s : CallStack) : Prop where
  depth : s.depth.val ≤ 16
  slots : ∀ k : Fin 16, s.slots[k].toNat ≤ 0xFFF
  frames : ∀ k : Fin 16, k.val < s.depth.val → 2 ≤ s.slots[k].toNat

namespace CallStack.Bounded

variable {s t : CallStack} {address : UInt16}

theorem empty : CallStack.empty.Bounded where
  depth := by decide
  slots k := by simp [CallStack.empty]
  frames k hk := absurd hk (Nat.not_lt_zero k)

theorem push (h : s.Bounded) (hp : s.push? address = some t) (hlow : 2 ≤ address.toNat)
    (hhigh : address.toNat ≤ 0xFFF) : t.Bounded := by
  unfold CallStack.push? at hp
  split at hp
  · cases hp
    refine ⟨by simp only; omega, fun k => ?_, fun k hk => ?_⟩
    · simp only [Fin.getElem_fin, Vector.getElem_set]
      split
      · exact hhigh
      · exact h.slots k
    · simp only [Fin.getElem_fin, Vector.getElem_set]
      split
      · exact hlow
      · refine h.frames k ?_
        simp only at hk
        omega
  · cases hp

theorem pop (h : s.Bounded) (hp : s.pop? = some (address, t)) :
    address.toNat ≤ 0xFFF ∧ t.Bounded := by
  obtain ⟨k, hk, hpair⟩ := Option.map_eq_some_iff.1 hp
  cases hpair
  have hdepth : k.val < s.depth.val := by
    unfold CallStack.top? at hk
    split at hk
    · cases hk
      simp only
      omega
    · cases hk
  refine ⟨h.slots k, ⟨Nat.le_of_lt k.isLt, h.slots, fun j hj => ?_⟩⟩
  exact h.frames j (Nat.lt_trans hj hdepth)

end CallStack.Bounded

/-- The program counter is at most the last address plus the largest offset of a jump. -/
structure Cpu.Bounded (c : Cpu) : Prop where
  pc : c.pc.toNat ≤ 0x10FE
  stack : c.stack.Bounded

namespace Machine

theorem toNat_target (target : Address) : target.val.toUInt16.toNat = target.val := by
  have ht := target.isLt
  rw [Nat.toUInt16_eq, UInt16.toNat_ofNat']
  omega

theorem bounded_execute (m : Machine) (i : Instruction) (h : m.cpu.Bounded)
    (hlow : 2 ≤ m.cpu.pc.toNat) (hhigh : m.cpu.pc.toNat ≤ 0xFFF) :
    (m.execute i).state.cpu.Bounded := by
  cases i with
  | ret =>
    simp only [execute]
    split
    · rename_i hp
      -- The counter comes from a slot, so the bound on slots carries over to it.
      obtain ⟨haddress, hstack⟩ := h.stack.pop hp
      exact ⟨Nat.le_trans haddress (by decide), hstack⟩
    · exact h
  | jump target =>
    have ht := target.isLt
    have hpc : target.val.toUInt16.toNat ≤ 0x10FE := by
      rw [toNat_target]
      omega
    exact ⟨hpc, h.stack⟩
  | call target =>
    have ht := target.isLt
    simp only [execute]
    split
    · rename_i hp
      have hpc : target.val.toUInt16.toNat ≤ 0x10FE := by
        rw [toNat_target]
        omega
      exact ⟨hpc, h.stack.push hp hlow hhigh⟩
    · exact h
  | skipIf test =>
    simp only [execute]
    split
    · have hpc : m.cpu.advance.pc.toNat ≤ 0x10FE := by
        rw [Cpu.toNat_advance (by omega)]
        omega
      exact ⟨hpc, h.stack⟩
    · exact h
  | jumpFrom target =>
    have ht := target.isLt
    have hv := (m.cpu.get .first).toNat_lt
    have hpc : (target.val.toUInt16 + (m.cpu.get .first).toUInt16).toNat ≤ 0x10FE := by
      rw [UInt16.toNat_add, toNat_target, UInt8.toNat_toUInt16]
      omega
    exact ⟨hpc, h.stack⟩
  | awaitKey x =>
    simp only [execute]
    split
    · exact ⟨h.pc, h.stack⟩
    · have hpc : m.cpu.origin.toNat ≤ 0x10FE := by
        rw [Cpu.origin, UInt16.toNat_sub_of_le _ _ hlow]
        omega
      exact ⟨hpc, h.stack⟩
  | combine op x y => cases op <;> exact ⟨h.pc, h.stack⟩
  | draw x y height =>
    simp only [execute, draw]
    split <;> exact ⟨h.pc, h.stack⟩
  | storeDecimal x | dump x =>
    simp only [execute, store, Outcome.state_ofFault]
    exact h
  | restore x =>
    have hstate : (m.execute (.restore x)).state.cpu =
        m.cpu.setMany (m.memory.readMany m.cpu.index.toNat (x + 1)).1 := by
      simp only [execute, restore, Outcome.state_ofFault]
    rw [hstate]
    exact ⟨by rw [Cpu.pc_setMany]; exact h.pc, by rw [Cpu.stack_setMany]; exact h.stack⟩
  | _ => exact ⟨h.pc, h.stack⟩

theorem bounded_cycle (m : Machine) (h : m.cpu.Bounded) : m.cycle.state.cpu.Bounded := by
  rcases cycle_cases m with ⟨fault, -, hc⟩ | ⟨w, hw, -, hc⟩ | ⟨w, i, hw, -, hc⟩
  · rw [hc]
    exact h
  · obtain ⟨hpc, hle⟩ := toNat_fetched hw
    have hnext : m.fetched.cpu.Bounded := ⟨by omega, h.stack⟩
    rw [hc]
    exact hnext
  · obtain ⟨hpc, hle⟩ := toNat_fetched hw
    have hnext : m.fetched.cpu.Bounded := ⟨by omega, h.stack⟩
    rw [hc]
    exact bounded_execute _ _ hnext (by omega) (by omega)

/-- The bounds on a machine, whatever it runs. A pixel is lit or not. -/
structure Bounded (m : Machine) : Prop where
  memory : ∀ a, (m.memory.get? a).isSome = true ↔ a < 4095
  display : ∀ p, (m.display.pixelAt? p).isSome = true ↔ p < 2048
  cpu : m.cpu.Bounded

theorem bounded_of_cpu {m : Machine} (h : m.cpu.Bounded) : m.Bounded where
  memory a := by
    rw [Option.isSome_iff_ne_none, ne_eq, Memory.get?_eq_none, Nat.not_le]
    rfl
  display p := by
    unfold Display.pixelAt?
    split <;> simp [*]
  cpu := h

end Machine

end ChipEight
