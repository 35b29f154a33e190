import ChipEight.Proofs.Reports
import ChipEight.Proofs.Runs

namespace ChipEight

namespace Log.Record

def isCritical (r : Record) : Bool := r.level = .critical

def isHalting (r : Record) : Bool := r.level = .error ∧ r.message = "halting"

/-- A critical record of the interpreter's about the instruction at an address. -/
structure Blames (r : Record) (here : UInt16) : Prop where
  level : r.level = .critical
  component : r.fields.lookup "component" = some "interpreter"
  pc : r.fields.lookup "pc" = some (counterText here)

/-- A record that tells which fault has come up. -/
structure Explains (r : Record) (fault : Fault) : Prop where
  level : r.level = .error
  error : r.fields.lookup "error" = some fault.message

end Log.Record

/-- The record of a fault that a session makes. -/
def Log.Logger.explain (log : Logger) (message : String) (fault : Fault) : Record :=
  ⟨.error, message, ("error", fault.message) :: log.context⟩

theorem Log.Logger.explains (log : Logger) (message : String) (fault : Fault) :
    (log.explain message fault).Explains fault := ⟨rfl, rfl⟩

@[simp]
theorem Log.Logger.isHalting_explain (log : Logger) (fault : Fault) :
    (log.explain "halting" fault).isHalting = true := by
  simp [explain, Record.isHalting]

@[simp]
theorem Log.Logger.isCritical_explain (log : Logger) (message : String) (fault : Fault) :
    (log.explain message fault).isCritical = false := by
  simp [explain, Record.isCritical]

/-- What the processor of a session records says that it is the interpreter's. -/
theorem Log.blames_of_child {log : Logger} {here : UInt16} (message : String) {fields : Fields}
    (component : fields.lookup "component" = none)
    (pc : fields.lookup "pc" = some (counterText here)) :
    Record.Blames ⟨.critical, message, fields ++ (log.child [("component", "interpreter")]).context⟩
      here where
  level := rfl
  component := by
    rw [List.lookup_append, component]
    rfl
  pc := by rw [List.lookup_append, pc, Option.some_or]

namespace Session

variable {s : Session} {log : Log.Logger}

/-- A session that records to a logger, its processor to a child of it. -/
structure Listens (s : Session) (log : Log.Logger) : Prop where
  session : s.logger = some log
  processor : s.machine.cpu.logger = some (log.child [("component", "interpreter")])

/-- What a step at an address records, given its answer. -/
inductive Emits (log : Log.Logger) (here : UInt16) :
    Machine.Operation → Except Fault Answer → List Log.Record → Prop
  | loaded (program : List UInt8) :
      Emits log here (.load program) (.ok .loaded)
        [⟨.info, "loaded program", ("size", Numeral.decimal program.length) :: log.context⟩]
  | refused (program : List UInt8) (fault : Fault) :
      Emits log here (.load program) (.error fault)
        [log.explain "failed to load program" fault]
  | executed (i : Instruction) : Emits log here .cycle (.ok (.executed i)) []
  | halted : Emits log here .cycle (.error .halted) []
  | critical (fault : Fault) (r : Log.Record) (kind : fault.isCritical = true)
      (blames : r.Blames here) :
      Emits log here .cycle (.error fault) [r, log.explain "halting" fault]
  | other (fault : Fault) (kind : fault.isCritical = false) (live : fault ≠ .halted) :
      Emits log here .cycle (.error fault) [log.explain "halting" fault]
  | tick : Emits log here .tick (.ok .done) []
  | setKey (key : Option Key) : Emits log here (.setKey key) (.ok .done) []
  | poll (down : List Key) : Emits log here (.poll down) (.ok .done) []

/-- What steps record, oldest first. -/
def logged (ops : List Machine.Operation) (s : Session) : List Log.Record :=
  s.collect (fun s op => (s.perform op.guarded).records) ops

/-- What operations record, oldest first. -/
def records (ops : List Operation) (s : Session) : List Log.Record :=
  (s.history ops).flatMap fun entry => entry.2.records

theorem logged_unrollFrame (n : Nat) (s : Session) :
    s.logged (unrollFrame n s) = (s.frame n).records := by
  induction n generalizing s with
  | zero => rfl
  | succ n ih =>
    cases h : s.cycle.result with
    | ok i =>
      rw [unrollFrame, h, frame_of_ok h]
      exact congrArg (s.cycle.records ++ ·) (ih s.cycle.state)
    | error fault =>
      rw [unrollFrame, h, frame_of_error h]
      exact List.append_nil _

theorem logged_steps (op : Operation) (s : Session) :
    s.logged (s.steps op) = (s.perform op).records := by
  cases op with
  | frame n => exact logged_unrollFrame n s
  | load | cycle | tick | setKey | poll => exact List.append_nil _

theorem logged_unroll (ops : List Operation) (s : Session) :
    s.logged (s.unroll ops) = s.records ops := by
  induction ops generalizing s with
  | nil => rfl
  | cons op ops ih =>
    have hfirst := logged_steps op s
    have hrest := ih (s.perform op).state
    rw [logged] at hfirst hrest
    rw [unroll, logged, collect_append, follow_steps, hfirst, hrest]
    rfl

theorem listens_start (config : Config) (entropy : Random.CipherKey) (log : Log.Logger) :
    (start config entropy (some log)).Listens log := ⟨rfl, rfl⟩

theorem logger_cycle (s : Session) : s.cycle.state.logger = s.logger := by
  cases hh : s.halted with
  | true => rw [cycle_of_halted hh, Outcome.state_fail]
  | false =>
    cases hr : s.machine.cycle.result with
    | ok i => rw [cycle_of_ok hh hr]
    | error fault => rw [cycle_of_error hh hr, Outcome.state_fail]

theorem Listens.cycle (h : s.Listens log) : s.cycle.state.Listens log where
  session := by
    rw [logger_cycle]
    exact h.session
  processor := by
    cases hh : s.halted with
    | true =>
      rw [cycle_of_halted hh]
      exact h.processor
    | false =>
      rw [machine_cycle hh, Machine.logger_cycle]
      exact h.processor

theorem Listens.perform (h : s.Listens log) (op : Machine.Operation) :
    (s.perform op.guarded).state.Listens log := by
  cases op with
  | load program =>
    show (s.load program).state.Listens log
    rw [(machine_load s program).2, Machine.state_load]
    exact ⟨h.session, h.processor⟩
  | cycle => exact h.cycle
  | tick | setKey | poll => exact ⟨h.session, h.processor⟩

theorem Listens.follow (h : s.Listens log) (ops : List Machine.Operation) :
    (s.follow ops).Listens log := by
  induction ops generalizing s with
  | nil => exact h
  | cons op ops ih =>
    rw [follow_cons]
    exact ih (h.perform op)

theorem emits_cycle (h : s.Listens log) :
    Emits log s.machine.cpu.pc .cycle (s.cycle.map .executed).result s.cycle.records := by
  cases hh : s.halted with
  | true =>
    rw [cycle_of_halted hh]
    exact .halted
  | false =>
    have hreports := s.machine.reports_cycle
    rw [h.processor] at hreports
    cases hr : s.machine.cycle.result with
    | ok i =>
      rw [hr] at hreports
      rw [cycle_of_ok hh hr]
      generalize s.machine.cycle.records = reported at hreports
      cases hreports
      exact .executed i
    | error fault =>
      rw [hr] at hreports
      rw [cycle_of_error hh hr, h.session]
      generalize s.machine.cycle.records = reported at hreports
      cases hreports with
      | outOfBounds address => exact .other _ rfl nofun
      | critical _ message fields kind component pc =>
        exact .critical fault _ kind (Log.blames_of_child message component pc)

/-- Every step records what it has to, and nothing else. -/
theorem emits_perform (h : s.Listens log) (op : Machine.Operation) :
    Emits log s.machine.cpu.pc op (s.perform op.guarded).result
      (s.perform op.guarded).records := by
  cases op with
  | load program =>
    show Emits log _ _ ((s.load program).map fun _ => .loaded).result (s.load program).records
    unfold load
    rw [h.session]
    split
    · exact .loaded program
    · exact .refused program _
  | cycle => exact emits_cycle h
  | tick => exact .tick
  | setKey key => exact .setKey key
  | poll down => exact .poll down

/-- The step halts the session. -/
def stops : Machine.Operation → Except Fault Answer → Bool
  | .cycle, .error fault => fault ≠ .halted
  | _, _ => false

namespace Emits

variable {here : UInt16} {op : Machine.Operation} {answer : Except Fault Answer}
  {emitted : List Log.Record}

theorem countP_halting (h : Emits log here op answer emitted) :
    emitted.countP (·.isHalting) = (stops op answer).toNat := by
  cases h with
  | critical fault r kind blames =>
    have hr : r.isHalting = false := by simp [Log.Record.isHalting, blames.level]
    have hlive := Fault.ne_halted_of_isCritical kind
    simp [stops, hr, hlive]
  | other fault kind live => simp [stops, live]
  | _ => rfl

theorem countP_critical (h : Emits log here op answer emitted) :
    emitted.countP (·.isCritical) ≤ (stops op answer).toNat := by
  cases h with
  | critical fault r kind blames =>
    have hr : r.isCritical = true := by simp [Log.Record.isCritical, blames.level]
    have hlive := Fault.ne_halted_of_isCritical kind
    simp [stops, hr, hlive]
  | other fault kind live => exact Nat.zero_le _
  | _ => exact Nat.le_refl 0

theorem explained {fault : Fault} (h : Emits log here op (.error fault) emitted)
    (live : fault ≠ .halted) : ∃ r ∈ emitted, r.Explains fault := by
  cases h with
  | refused program => exact ⟨_, List.mem_singleton_self _, log.explains _ fault⟩
  | halted => exact absurd rfl live
  | critical _ r =>
    exact ⟨_, List.mem_cons_of_mem _ (List.mem_singleton_self _), log.explains _ fault⟩
  | other => exact ⟨_, List.mem_singleton_self _, log.explains _ fault⟩

theorem of_critical {fault : Fault} (h : Emits log here .cycle (.error fault) emitted)
    (kind : fault.isCritical = true) :
    ∃ r : Log.Record, r.Blames here ∧ emitted = [r, log.explain "halting" fault] := by
  cases h with
  | halted => cases kind
  | critical _ r _ blames => exact ⟨r, blames, rfl⟩
  | other _ hnot => cases kind.symm.trans hnot

end Emits

/-- A session that is halted stays halted, and only a step that stops it halts it. -/
theorem halted_perform (s : Session) (op : Machine.Operation) :
    (s.halted = true → stops op (s.perform op.guarded).result = false) ∧
      (s.perform op.guarded).state.halted =
        (s.halted || stops op (s.perform op.guarded).result) := by
  cases op with
  | load program =>
    refine ⟨fun _ => rfl, ?_⟩
    show (s.load program).state.halted = (s.halted || false)
    rw [(machine_load s program).2, Bool.or_false]
  | cycle =>
    show (s.halted = true → stops .cycle (s.cycle.map .executed).result = false) ∧
      s.cycle.state.halted = (s.halted || stops .cycle (s.cycle.map .executed).result)
    cases hh : s.halted with
    | true =>
      rw [cycle_of_halted hh]
      exact ⟨fun _ => rfl, hh⟩
    | false =>
      refine ⟨nofun, ?_⟩
      cases hr : s.machine.cycle.result with
      | ok i =>
        rw [cycle_of_ok hh hr]
        exact hh
      | error fault =>
        have hlive := Machine.ne_halted_of_error hr
        rw [cycle_of_error hh hr]
        simp [stops, Outcome.map, Outcome.fail, Except.map, hlive]
  | tick | setKey | poll => exact ⟨fun _ => rfl, (Bool.or_false _).symm⟩

/-- A session that has halted has said so once, and one that has not has not. -/
structure Tallies (log : Log.Logger) (past : List Log.Record) (s : Session) : Prop where
  listens : s.Listens log
  halting : past.countP (·.isHalting) = s.halted.toNat
  critical : past.countP (·.isCritical) ≤ s.halted.toNat

theorem Tallies.perform {past : List Log.Record} (h : Tallies log past s)
    (op : Machine.Operation) :
    Tallies log (past ++ (s.perform op.guarded).records) (s.perform op.guarded).state := by
  have hemits := emits_perform h.listens op
  have hhalting := hemits.countP_halting
  have hcritical := hemits.countP_critical
  obtain ⟨hstays, hhalted⟩ := halted_perform s op
  -- A halted session does not stop again, so the two numbers add up as the two flags do.
  have hadds : (s.perform op.guarded).state.halted.toNat =
      s.halted.toNat + (stops op (s.perform op.guarded).result).toNat := by
    rw [hhalted]
    cases hh : s.halted with
    | true =>
      rw [hstays hh]
      rfl
    | false => exact (Nat.zero_add _).symm
  constructor
  case listens => exact h.listens.perform op
  case halting => rw [List.countP_append, h.halting, hhalting, hadds]
  case critical =>
    rw [List.countP_append, hadds]
    exact Nat.add_le_add h.critical hcritical

theorem tallies_logged (h : s.Listens log) (live : s.halted = false)
    (ops : List Machine.Operation) : Tallies log (s.logged ops) (s.follow ops) := by
  have hstart : Tallies log [] s := by
    constructor
    case listens => exact h
    all_goals simp [live]
  apply collect_induction (P := Tallies log) hstart
  exact fun past t op ih => ih.perform op

/-- What the records of a whole session come to. -/
structure HoldsLog (s : Session) (past : List Log.Record) : Prop where
  critical : past.countP (·.isCritical) ≤ 1
  halting : past.countP (·.isHalting) ≤ 1
  halted : (∃ r ∈ past, r.isHalting = true) ↔ s.halted = true

theorem Tallies.holdsLog {past : List Log.Record} (h : Tallies log past s) : s.HoldsLog past where
  critical := Nat.le_trans h.critical (Bool.toNat_le _)
  halting := Nat.le_trans (Nat.le_of_eq h.halting) (Bool.toNat_le _)
  halted := by
    rw [← List.countP_pos_iff, h.halting]
    cases s.halted <;> simp

theorem frame_explained (n : Nat) {fault : Fault} (h : s.Listens log)
    (hr : (s.frame n).result = .error fault) (live : fault ≠ .halted) :
    ∃ r ∈ (s.frame n).records, r.Explains fault := by
  induction n generalizing s with
  | zero => cases hr
  | succ n ih =>
    cases hc : s.cycle.result with
    | ok i =>
      rw [frame_of_ok hc] at hr ⊢
      obtain ⟨r, hmem, hexplains⟩ := ih h.cycle (Outcome.result_map_eq_error.1 hr)
      exact ⟨r, List.mem_append_right _ hmem, hexplains⟩
    | error fault' =>
      have hemits := emits_cycle h
      rw [frame_of_error hc] at hr ⊢
      cases hr
      rw [Outcome.result_map_eq_error.2 hc] at hemits
      exact hemits.explained live

theorem step_explained (h : s.Listens log) (op : Machine.Operation) {fault : Fault}
    (hr : (s.perform op.guarded).result = .error fault) (live : fault ≠ .halted) :
    ∃ r ∈ (s.perform op.guarded).records, r.Explains fault := by
  have hemits := emits_perform h op
  rw [hr] at hemits
  exact hemits.explained live

/-- What goes wrong in an operation is recorded before the caller is told. -/
theorem perform_explained (h : s.Listens log) (op : Operation) {fault : Fault}
    (hr : (s.perform op).result = .error fault) (live : fault ≠ .halted) :
    ∃ r ∈ (s.perform op).records, r.Explains fault := by
  cases op with
  | frame n => exact frame_explained n h (Outcome.result_map_eq_error.1 hr) live
  | load program => exact step_explained h (.load program) hr live
  | cycle => exact step_explained h .cycle hr live
  | tick | setKey | poll => cases hr

/-- The log of a session. Each step, inside of frames too, records what it has to and nothing else;
a session reports one critical condition at most, and that it halts once, when it does. -/
theorem log_of_session (config : Config) (entropy : Random.CipherKey) (log : Log.Logger)
    (ops : List Operation) :
    let s := start config entropy (some log)
    s.follow (s.unroll ops) = s.after ops ∧ s.logged (s.unroll ops) = s.records ops ∧
      (∀ steps op, steps ++ [op] <+: s.unroll ops →
        let t := s.follow steps
        Emits log t.machine.cpu.pc op (t.perform op.guarded).result
          (t.perform op.guarded).records) ∧
      (∀ steps, steps <+: s.unroll ops → (s.follow steps).HoldsLog (s.logged steps)) ∧
      ∀ before op, before ++ [op] <+: ops → ∀ fault,
        ((s.after before).perform op).result = .error fault → fault ≠ .halted →
          ∃ r ∈ ((s.after before).perform op).records, r.Explains fault := by
  intro s
  have hlistens : s.Listens log := listens_start config entropy log
  refine ⟨follow_unroll ops s, logged_unroll ops s, ?_, ?_, ?_⟩
  · intro steps op _
    exact emits_perform (hlistens.follow steps) op
  · intro steps _
    exact (tallies_logged hlistens rfl steps).holdsLog
  · intro before op _ fault
    have hbefore : (s.after before).Listens log := by
      rw [← follow_unroll]
      exact hlistens.follow _
    exact perform_explained hbefore op

/-- A program that starts with a word that is no instruction. -/
theorem log_of_unknown_opcode :
    let program : List UInt8 := [0x8A, 0xB9]
    let log : Log.Logger := ⟨[]⟩
    let t := ((start {} (Vector.replicate 8 0) (some log)).load program).state
    let fault : Fault := .unknownOpcode 0x8AB9 0x200
    t.cycle.result = .error fault ∧
      ∃ r : Log.Record, r.Blames 0x200 ∧ t.cycle.records = [r, log.explain "halting" fault] := by
  intro program log t fault
  have hload : Memory.initial.load program = .ok t.machine.memory := rfl
  have hword : t.machine.memory.readWord t.machine.cpu.pc.toNat = .ok 0x8AB9 :=
    Memory.readWord_load hload 0 rfl rfl
  have hunknown : t.machine.cycle.result = .error fault := by
    rw [Machine.cycle_of_unknown hword rfl]
    rfl
  have hresult : t.cycle.result = .error fault := by
    rw [result_cycle rfl, hunknown]
  -- This holds of any session, and checking it needs no run of the program.
  have hstep (s : Session) (h : ∀ steps op, steps ++ [op] <+: s.unroll [.load program, .cycle] →
      Emits log (s.follow steps).machine.cpu.pc op ((s.follow steps).perform op.guarded).result
        ((s.follow steps).perform op.guarded).records) :
      Emits log (s.load program).state.machine.cpu.pc .cycle
        ((s.load program).state.cycle.map .executed).result (s.load program).state.cycle.records :=
    h [.load program] .cycle List.prefix_rfl
  have hpc : t.machine.cpu.pc = 0x200 := rfl
  have hrecorded := hstep _
    (log_of_session {} (Vector.replicate 8 0) log [.load program, .cycle]).2.2.1
  rw [Outcome.result_map_eq_error.2 hresult, hpc] at hrecorded
  exact ⟨hresult, hrecorded.of_critical rfl⟩

end Session

end ChipEight
