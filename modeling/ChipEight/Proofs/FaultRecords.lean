import ChipEight.Proofs.BareMachine
import ChipEight.Proofs.Numerals
import ChipEight.Proofs.Reports

namespace ChipEight

theorem opcodeText_inj {v w : UInt16} (h : opcodeText v = opcodeText w) : v = w :=
  UInt16.toNat_inj.1 (Numeral.hex_inj.1 h)

theorem counterText_inj {v w : UInt16} (h : counterText v = counterText w) : v = w :=
  UInt16.toNat_inj.1 (Numeral.hex_inj.1 h)

namespace Fault

/-- What the processor calls a fault that it records. -/
def heading? : Fault → Option String
  | .unknownOpcode .. => some "unknown opcode"
  | .unsupportedCall .. => some "unsupported machine code call"
  | .stackUnderflow _ => some "return with an empty call stack"
  | .stackOverflow _ => some "call with a full call stack"
  | .addressOutOfBounds _ | .programTooLarge .. | .halted => none

/-- The address of the instruction that a fault names. -/
def site? : Fault → Option UInt16
  | .unknownOpcode _ pc | .unsupportedCall _ pc | .stackUnderflow pc | .stackOverflow pc => some pc
  | .addressOutOfBounds _ | .programTooLarge .. | .halted => none

/-- The word that a fault names. -/
def opcode? : Fault → Option UInt16
  | .unknownOpcode opcode _ | .unsupportedCall opcode _ => some opcode
  | _ => none

end Fault

namespace Log.Record

/-- A record of the fault that the instruction at an address has ended in. -/
structure Identifies (r : Record) (here : UInt16) (fault : Fault) : Prop where
  level : r.level = .critical
  heading : fault.heading? = some r.message
  site : fault.site? = some here
  pc : r.fields.lookup "pc" = some (counterText here)
  opcode : ∀ w, fault.opcode? = some w → r.fields.lookup "opcode" = some (opcodeText w)

variable {r : Record} {here there : UInt16} {fault other : Fault}

/-- Reading the record is enough to tell the fault. -/
theorem Identifies.unique (h : r.Identifies here fault) (h' : r.Identifies there other) :
    there = here ∧ other = fault := by
  have hplace : there = here := counterText_inj (Option.some_inj.1 (h'.pc.symm.trans h.pc))
  have hheading : other.heading? = fault.heading? := h'.heading.trans h.heading.symm
  have hopcode (v w : UInt16) (hv : other.opcode? = some v) (hw : fault.opcode? = some w) :
      v = w :=
    opcodeText_inj (Option.some_inj.1 ((h'.opcode v hv).symm.trans (h.opcode w hw)))
  subst hplace
  refine ⟨rfl, ?_⟩
  have hsite : other.site? = fault.site? := h'.site.trans h.site.symm
  cases fault with
  | unknownOpcode w pc | unsupportedCall w pc =>
    cases other <;> simp_all [Fault.heading?, Fault.site?, Fault.opcode?]
  | stackUnderflow pc | stackOverflow pc =>
    cases other <;> simp_all [Fault.heading?, Fault.site?]
  | addressOutOfBounds | programTooLarge | halted => cases h.site

end Log.Record

theorem Cpu.report_of_logger {c : Cpu} {log : Log.Logger} (h : c.logger = some log)
    (message : String) (fields : Log.Fields) :
    c.report message fields = [⟨.critical, message, fields ++ log.context⟩] := by
  rw [report, h]
  rfl

namespace Machine

variable {m : Machine} {log : Log.Logger} {i : Instruction} {fault : Fault}

theorem identified_execute (hlog : m.cpu.logger = some log)
    (h : m.Fails m.cpu.origin i fault) (memory : ∀ a, fault ≠ .addressOutOfBounds a) :
    ∃ r, (m.execute i).records = [r] ∧ r.Identifies m.cpu.origin fault := by
  cases h with
  | unsupported target =>
    refine ⟨_, Cpu.report_of_logger hlog _ _, rfl, rfl, rfl, rfl, ?_⟩
    intro w hw
    cases hw
    rfl
  | underflow hempty =>
    have hreport := Cpu.report_of_logger hlog "return with an empty call stack"
      [("pc", counterText m.cpu.origin)]
    refine ⟨_, Eq.trans ?_ hreport, rfl, rfl, rfl, rfl, ?_⟩
    · simp only [execute, CallStack.pop?_eq_none.2 hempty, Outcome.fail]
    · intro w hw
      cases hw
  | overflow target hfull =>
    have hreport := Cpu.report_of_logger hlog "call with a full call stack"
      [("pc", counterText m.cpu.origin), ("target", counterText target.val.toUInt16)]
    refine ⟨_, Eq.trans ?_ hreport, rfl, rfl, rfl, rfl, ?_⟩
    · simp only [execute, CallStack.push?_eq_none.2 hfull, Outcome.fail]
    · intro w hw
      cases hw
  | overrun => exact absurd rfl (memory _)

theorem identified_cycle (hlog : m.cpu.logger = some log) (h : m.cycle.result = .error fault)
    (memory : ∀ a, fault ≠ .addressOutOfBounds a) :
    ∃ r, m.cycle.records = [r] ∧ r.Identifies m.cpu.pc fault := by
  rcases cycle_cases m with ⟨fault', hw, hc⟩ | ⟨w, -, -, hc⟩ | ⟨w, i, -, -, hc⟩
  · obtain ⟨address, haddress⟩ := Memory.fault_readWord hw
    rw [hc, haddress] at h
    cases h
    exact absurd rfl (memory address)
  · rw [hc] at h ⊢
    cases h
    refine ⟨_, Cpu.report_of_logger hlog _ _, rfl, rfl, rfl, rfl, ?_⟩
    intro v hv
    cases hv
    rfl
  · rw [hc] at h ⊢
    rw [Outcome.result_map_eq_error, result_execute_error] at h
    have hidentified := identified_execute (m := m.fetched) hlog h memory
    have horigin : m.fetched.cpu.origin = m.cpu.pc := m.cpu.origin_advance
    rw [horigin] at hidentified
    exact hidentified

theorem records_cycle_of_ok (h : m.cycle.result = .ok i) : m.cycle.records = [] := by
  have hreports := m.reports_cycle
  rw [h] at hreports
  generalize m.cycle.records = reported at hreports ⊢
  cases hreports
  rfl

theorem records_cycle_of_outOfBounds {a : Nat}
    (h : m.cycle.result = .error (.addressOutOfBounds a)) : m.cycle.records = [] := by
  have hreports := m.reports_cycle
  rw [h] at hreports
  generalize m.cycle.records = reported at hreports ⊢
  cases hreports with
  | outOfBounds => rfl
  | critical _ _ _ kind => cases kind

theorem logger_perform (op : Operation) (m : Machine) :
    (m.perform op).cpu.logger = m.cpu.logger := by
  cases op with
  | load program =>
    rw [perform, state_load]
  | cycle => exact m.logger_cycle
  | tick | setKey | poll => rfl

theorem logger_after (ops : List Operation) (m : Machine) :
    (m.after ops).cpu.logger = m.cpu.logger := by
  induction ops generalizing m with
  | nil => rfl
  | cons op ops ih => exact (ih (m.perform op)).trans (logger_perform op m)

/-- A processor with a logger records each fault of a cycle before it returns it, in one critical
record that tells the fault and the address of the instruction. Cycles that end well and cycles
that meet the end of memory record nothing. -/
theorem faults_are_recorded (hlog : m.cpu.logger = some log) (ops : List Operation) :
    let n := m.after ops
    n.cpu.logger = some log ∧
      (∀ i, n.cycle.result = .ok i → n.cycle.records = []) ∧
      (∀ fault, n.cycle.result = .error fault → (∀ a, fault ≠ .addressOutOfBounds a) →
        ∃ r, n.cycle.records = [r] ∧ r.Identifies n.cpu.pc fault ∧
          ∀ there other, r.Identifies there other → there = n.cpu.pc ∧ other = fault) ∧
      ∀ a, n.cycle.result = .error (.addressOutOfBounds a) → n.cycle.records = [] := by
  intro n
  have hkept : n.cpu.logger = some log := (logger_after ops m).trans hlog
  refine ⟨hkept, fun i => records_cycle_of_ok, ?_, fun a => records_cycle_of_outOfBounds⟩
  intro fault h memory
  obtain ⟨r, hrecords, hidentifies⟩ := identified_cycle hkept h memory
  exact ⟨r, hrecords, hidentifies, fun there other => hidentifies.unique⟩

/-- The word 8AB9 is no instruction. -/
theorem unknown_opcode_recorded :
    let m : Machine := ⟨.start {} (Vector.replicate 8 0) (some ⟨[]⟩), .initial, .blank⟩
    let n := m.after [.load [0x8A, 0xB9]]
    n.cycle.result = .error (.unknownOpcode 0x8AB9 0x200) ∧
      ∃ r, n.cycle.records = [r] ∧ r.Identifies 0x200 (.unknownOpcode 0x8AB9 0x200) := by
  intro m n
  have hload : Memory.initial.load [0x8A, 0xB9] = .ok n.memory := rfl
  have hword : n.memory.readWord 0x200 = .ok 0x8AB9 := Memory.readWord_load hload 0 rfl rfl
  have hresult : n.cycle.result = .error (.unknownOpcode 0x8AB9 0x200) := by
    rw [cycle_of_unknown hword rfl]
    rfl
  have hlog : m.cpu.logger = some ⟨[]⟩ := rfl
  obtain ⟨r, hrecords, hidentifies, -⟩ :=
    (faults_are_recorded hlog [.load [0x8A, 0xB9]]).2.2.1 _ hresult nofun
  exact ⟨hresult, r, hrecords, hidentifies⟩

/-- A program that points I past the last byte and loads V0 from there. -/
theorem fault_past_memory_unrecorded :
    let m : Machine := ⟨.start {} (Vector.replicate 8 0) (some ⟨[]⟩), .initial, .blank⟩
    let n := m.after [.load [0xAF, 0xFF, 0xF0, 0x65], .cycle]
    n.cpu.logger = some ⟨[]⟩ ∧ n.cpu.pc = 0x202 ∧
      n.cycle.result = .error (.addressOutOfBounds 0xFFF) ∧ n.cycle.records = [] := by
  intro m n
  let p := m.after [.load [0xAF, 0xFF, 0xF0, 0x65]]
  let i : Instruction := .setIndex (Fin.ofNat 4096 0xFFF)
  let pointed := (p.fetched.execute i).state
  have hload : Memory.initial.load [0xAF, 0xFF, 0xF0, 0x65] = .ok p.memory := rfl
  have hfirst : p.memory.readWord 0x200 = .ok 0xAFFF := Memory.readWord_load hload 0 rfl rfl
  have hsecond : pointed.memory.readWord 0x202 = .ok 0xF065 :=
    Memory.readWord_load hload 2 rfl rfl
  -- These hold of any machine, and checking them needs no run of the program.
  have hrun (m : Machine) : m.after [.load [0xAF, 0xFF, 0xF0, 0x65], .cycle] =
      (m.after [.load [0xAF, 0xFF, 0xF0, 0x65]]).cycle.state := rfl
  have hn : n = pointed := by
    refine (hrun m).trans ?_
    rw [cycle_of_decoded (i := i) hfirst rfl]
    exact Outcome.state_map ..
  have hbeyond : pointed.Fails 0x202 (.restore (nibble 0)) (.addressOutOfBounds 0xFFF) :=
    .overrun _ (by decide) (by decide)
  have hresult : pointed.cycle.result = .error (.addressOutOfBounds 0xFFF) :=
    (result_cycle_error hsecond).2 (.inr ⟨_, rfl, hbeyond⟩)
  rw [hn]
  exact ⟨rfl, rfl, hresult, records_cycle_of_outOfBounds hresult⟩

end Machine

end ChipEight
