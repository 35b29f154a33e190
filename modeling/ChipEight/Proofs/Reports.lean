import ChipEight.Proofs.Disguise
import ChipEight.Proofs.Faults

namespace ChipEight

/-- The faults that the processor records by itself. -/
def Fault.isCritical : Fault → Bool
  | .unknownOpcode .. | .unsupportedCall .. | .stackUnderflow _ | .stackOverflow _ => true
  | .addressOutOfBounds _ | .programTooLarge .. | .halted => false

theorem Fault.ne_halted_of_isCritical {fault : Fault} (h : fault.isCritical = true) :
    fault ≠ .halted := by
  rintro rfl
  cases h

/-- Whether the processor records it when the instruction fails. -/
def Instruction.recordsFailure : Instruction → Bool
  | .machineCode _ | .ret | .call _ => true
  | _ => false

namespace Machine

/-- What a processor with a logger records of a cycle at an address. Memory that ends too early is
the one fault that it leaves to others to record. -/
inductive Reports (logger : Option Log.Logger) (here : UInt16) :
    Except Fault Instruction → List Log.Record → Prop
  | executed (i : Instruction) : Reports logger here (.ok i) []
  | outOfBounds (address : Nat) : Reports logger here (.error (.addressOutOfBounds address)) []
  | critical (fault : Fault) (message : String) (fields : Log.Fields)
      (kind : fault.isCritical = true) (component : fields.lookup "component" = none)
      (pc : fields.lookup "pc" = some (counterText here)) :
      Reports logger here (.error fault) (Log.emit logger .critical message fields)

variable {m : Machine} {i : Instruction}

theorem records_execute (m : Machine) (h : i.recordsFailure = false) :
    (m.execute i).records = [] := by
  cases i with
  | machineCode | ret | call => cases h
  | awaitKey x =>
    simp only [execute]
    split <;> rfl
  | draw x y height =>
    simp only [execute, draw]
    split <;> rfl
  | storeDecimal x | dump x => simp only [execute, store, Outcome.records_ofFault]
  | restore x => simp only [execute, restore, Outcome.records_ofFault]
  | _ => rfl

/-- The other instructions fail only where memory ends. -/
theorem reports_of_silent (m : Machine) (h : i.recordsFailure = false) :
    Reports m.cpu.logger m.cpu.origin ((m.execute i).map fun _ => i).result
      (m.execute i).records := by
  rw [records_execute m h]
  rcases Outcome.result_map_cases (fun _ => i) (m.execute i) with
    ⟨done, -, hok⟩ | ⟨fault, hr, herror⟩
  · rw [hok]
    exact .executed i
  · rw [herror]
    cases result_execute_error.1 hr with
    | unsupported | underflow | overflow => cases h
    | overrun => exact .outOfBounds _

theorem reports_execute (m : Machine) (i : Instruction) :
    Reports m.cpu.logger m.cpu.origin ((m.execute i).map fun _ => i).result
      (m.execute i).records := by
  cases i with
  | machineCode target => exact .critical _ _ _ rfl rfl rfl
  | ret =>
    simp only [execute]
    split
    · exact .executed _
    · exact .critical _ _ _ rfl rfl rfl
  | call target =>
    simp only [execute]
    split
    · exact .executed _
    · exact .critical _ _ _ rfl rfl rfl
  | _ => exact reports_of_silent m rfl

theorem reports_cycle (m : Machine) :
    Reports m.cpu.logger m.cpu.pc m.cycle.result m.cycle.records := by
  rcases cycle_cases m with ⟨fault, hw, hc⟩ | ⟨w, -, -, hc⟩ | ⟨w, i, -, -, hc⟩
  · obtain ⟨address, haddress⟩ := Memory.fault_readWord hw
    rw [hc, haddress]
    exact .outOfBounds address
  · rw [hc]
    exact .critical _ _ _ rfl rfl rfl
  · have hreports := reports_execute m.fetched i
    have horigin : m.fetched.cpu.origin = m.cpu.pc := m.cpu.origin_advance
    rw [horigin] at hreports
    rw [hc]
    exact hreports

/-- Only sessions answer that they are halted. -/
theorem ne_halted_of_error {fault : Fault} (h : m.cycle.result = .error fault) :
    fault ≠ .halted := by
  have hreports := m.reports_cycle
  rw [h] at hreports
  generalize m.cycle.records = reported at hreports
  cases hreports with
  | outOfBounds => exact nofun
  | critical _ message fields kind => exact Fault.ne_halted_of_isCritical kind

theorem logger_cycle (m : Machine) : m.cycle.state.cpu.logger = m.cpu.logger := by
  have hhidden := congrArg Cpu.Hidden.logger m.hidden_cycle
  exact hhidden.trans (Cpu.Hidden.logger_eq_after _ _)

end Machine

end ChipEight
