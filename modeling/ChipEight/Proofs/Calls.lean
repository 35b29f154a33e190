import ChipEight.Proofs.Diagnosis
import ChipEight.Proofs.FrameTable
import ChipEight.Proofs.Runs

namespace ChipEight

def Instruction.isCall : Instruction → Bool
  | .call _ => true
  | _ => false

def Instruction.isReturn : Instruction → Bool
  | .ret => true
  | _ => false

theorem Instruction.isCall_of_ne {i : Instruction} (h : ∀ target, i ≠ .call target) :
    i.isCall = false := by
  cases i with
  | call target => exact absurd rfl (h target)
  | _ => rfl

theorem Instruction.isReturn_of_ne {i : Instruction} (h : i ≠ .ret) : i.isReturn = false := by
  cases i with
  | ret => exact absurd rfl h
  | _ => rfl

namespace Session

/-- The open calls behind an instruction, oldest first, each as the address it returns to. A return
closes the latest. -/
def track (opened : List UInt16) : UInt16 × Instruction → List UInt16
  | (here, .call _) => opened ++ [here + 2]
  | (_, .ret) => opened.dropLast
  | _ => opened

/-- The calls that no return has matched yet. -/
def openCalls (past : List (UInt16 × Instruction)) : List UInt16 := past.foldl track []

def calls (past : List (UInt16 × Instruction)) : Nat := past.countP (·.2.isCall)

def returns (past : List (UInt16 × Instruction)) : Nat := past.countP (·.2.isReturn)

variable {s : Session} {past : List (UInt16 × Instruction)} {here : UInt16} {i : Instruction}

theorem openCalls_concat (past : List (UInt16 × Instruction)) (e : UInt16 × Instruction) :
    openCalls (past ++ [e]) = track (openCalls past) e := by
  rw [openCalls, List.foldl_append]
  rfl

theorem track_of_ne (opened : List UInt16) (hret : i ≠ .ret)
    (hcall : ∀ target, i ≠ .call target) : track opened (here, i) = opened := by
  cases i with
  | ret => exact absurd rfl hret
  | call target => exact absurd rfl (hcall target)
  | _ => rfl

theorem calls_concat (past : List (UInt16 × Instruction)) (here : UInt16) (i : Instruction) :
    calls (past ++ [(here, i)]) = calls past + i.isCall.toNat := by
  rw [calls, List.countP_append, List.countP_singleton]
  cases i.isCall <;> rfl

theorem returns_concat (past : List (UInt16 × Instruction)) (here : UInt16) (i : Instruction) :
    returns (past ++ [(here, i)]) = returns past + i.isReturn.toNat := by
  rw [returns, List.countP_append, List.countP_singleton]
  cases i.isReturn <;> rfl

theorem stack_cycle (s : Session) :
    (s.cycle.result = .ok .ret ∧ s.machine.cpu.stack.pop? =
      some (s.cycle.state.machine.cpu.pc, s.cycle.state.machine.cpu.stack)) ∨
    (∃ target, s.cycle.result = .ok (.call target) ∧
      s.machine.cpu.stack.push? (s.machine.cpu.pc + 2) = some s.cycle.state.machine.cpu.stack) ∨
    (s.cycle.result ≠ .ok .ret ∧ ∀ target, s.cycle.result ≠ .ok (.call target)) ∧
      s.cycle.state.machine.cpu.stack = s.machine.cpu.stack := by
  cases hh : s.halted with
  | true =>
    rw [cycle_of_halted hh]
    exact .inr (.inr ⟨⟨nofun, nofun⟩, rfl⟩)
  | false =>
    rw [result_cycle hh, machine_cycle hh]
    exact s.machine.stack_cycle

theorem stack_cycle_of_fails {w : UInt16} {fault : Fault} (hw : s.currentOpcode = .ok w)
    (hd : Instruction.decode w = some i) (h : s.machine.Fails s.machine.cpu.pc i fault)
    (early : ∀ address, fault ≠ .addressOutOfBounds address) :
    s.cycle.state.machine.cpu.stack = s.machine.cpu.stack := by
  cases hh : s.halted with
  | true => rw [cycle_of_halted hh, Outcome.state_fail]
  | false =>
    have hr := (Machine.result_cycle_error hw).2 (.inr ⟨i, hd, h⟩)
    rw [machine_cycle hh, Machine.state_cycle_of_early hr early]
    rfl

/-- The stack holds the open calls. -/
def Tracks (past : List (UInt16 × Instruction)) (s : Session) : Prop :=
  s.machine.cpu.stack.frames = openCalls past ∧
    s.machine.cpu.stack.depth.val + returns past = calls past

theorem tracks_concat {t : Session} (h : Tracks past s)
    (hframes : t.machine.cpu.stack.frames = track s.machine.cpu.stack.frames (here, i))
    (hdepth : t.machine.cpu.stack.depth.val + i.isReturn.toNat =
      s.machine.cpu.stack.depth.val + i.isCall.toNat) : Tracks (past ++ [(here, i)]) t := by
  obtain ⟨hopen, hcount⟩ := h
  constructor
  · rw [openCalls_concat, ← hopen, hframes]
  · rw [calls_concat, returns_concat]
    omega

theorem tracks_cycle (h : Tracks past s) :
    Tracks (past ++ s.executes .cycle) s.cycle.state := by
  rcases s.stack_cycle with ⟨hr, hp⟩ | ⟨target, hr, hp⟩ | ⟨⟨hret, hcall⟩, hs⟩
  · rw [executes_of_ok hr]
    apply tracks_concat h
    · rw [CallStack.frames_pop? hp]
      exact List.dropLast_concat.symm
    · exact (CallStack.depth_pop? hp).symm
  · rw [executes_of_ok hr]
    apply tracks_concat h
    · exact CallStack.frames_push? hp
    · exact CallStack.depth_push? hp
  · cases hr : s.cycle.result with
    | ok i =>
      rw [hr] at hret hcall
      have hret' : i ≠ .ret := fun hi => hret (congrArg _ hi)
      have hcall' (target : Address) : i ≠ .call target := fun hi => hcall target (congrArg _ hi)
      rw [executes_of_ok hr]
      apply tracks_concat h
      · rw [hs, track_of_ne _ hret' hcall']
      · rw [hs, Instruction.isCall_of_ne hcall', Instruction.isReturn_of_ne hret']
    | error fault =>
      rw [executes_of_error hr, List.append_nil, Tracks, hs]
      exact h

theorem tracks_perform (past : List (UInt16 × Instruction)) (s : Session) (op : Machine.Operation)
    (h : Tracks past s) : Tracks (past ++ s.executes op) (s.perform op.guarded).state := by
  by_cases hop : op = .cycle
  · subst hop
    exact tracks_cycle h
  · obtain ⟨delay, sound, keypad, hcpu⟩ := cpu_perform (s := s) hop
    rw [executes_of_ne_cycle hop, List.append_nil, Tracks, hcpu]
    exact h

theorem tracks_executed (config : Config) (entropy : Random.CipherKey)
    (logger : Option Log.Logger) (ops : List Machine.Operation) :
    let s := start config entropy logger
    Tracks (s.executed ops) (s.follow ops) :=
  executed_induction ⟨rfl, rfl⟩ tracks_perform ops

/-- What a session that has executed something keeps of its calls. -/
structure HoldsCalls (s : Session) (past : List (UInt16 × Instruction)) : Prop where
  depth : s.machine.cpu.stack.depth.val ≤ 16
  count : s.machine.cpu.stack.depth.val + returns past = calls past
  frames : s.machine.cpu.stack.frames = openCalls past
  ret : s.cycle.result = .ok .ret →
    (openCalls past).getLast? = some s.cycle.state.machine.cpu.pc
  closed : s.snapshot.stackPointer = none ↔ openCalls past = []
  top : ∀ k, s.snapshot.stackPointer = some k →
    k.toNat + 1 = (openCalls past).length ∧
      s.snapshot.stack[k.toNat]? = (openCalls past).getLast?
  overflow : ∀ w, s.currentOpcode = .ok w → w.toNat / 0x1000 = 0x2 →
    (openCalls past).length = 16 → s.cycle.state.machine.cpu.stack = s.machine.cpu.stack
  underflow : s.currentOpcode = .ok 0x00EE → openCalls past = [] →
    s.cycle.state.machine.cpu.stack = s.machine.cpu.stack

theorem holdsCalls_of_tracks (h : Tracks past s) : s.HoldsCalls past := by
  obtain ⟨hframes, hcount⟩ := h
  have hlength : (openCalls past).length = s.machine.cpu.stack.depth.val := by
    rw [← hframes, CallStack.frames_length]
  constructor
  case depth => omega
  case count => exact hcount
  case frames => exact hframes
  case ret =>
    intro hr
    rcases s.stack_cycle with ⟨-, hp⟩ | ⟨target, hcall, -⟩ | ⟨⟨hret, -⟩, -⟩
    · rw [← hframes, CallStack.frames_pop? hp, List.getLast?_concat]
    · cases hr.symm.trans hcall
    · exact absurd hr hret
  case closed =>
    rw [← List.length_eq_zero_iff, hlength, ← CallStack.top?_eq_none]
    exact Option.map_eq_none_iff
  case top =>
    intro k hk
    obtain ⟨slot, hslot, hk⟩ := Option.map_eq_some_iff.1 hk
    have hdepth := CallStack.top?_eq_some.1 hslot
    have hslot := slot.isLt
    have hnat : k.toNat = slot.val := by
      rw [← hk]
      simp
      omega
    rw [hnat, hlength, hdepth, ← hframes, CallStack.getLast?_frames hdepth]
    exact ⟨rfl, rfl⟩
  case overflow =>
    intro w hw hf hfull
    obtain ⟨target, hd⟩ := family_call_iff.1 hf
    exact stack_cycle_of_fails hw hd (.overflow target (hlength.symm.trans hfull)) nofun
  case underflow =>
    intro hw hempty
    have hzero : s.machine.cpu.stack.depth.val = 0 := by
      rw [← hlength, hempty, List.length_nil]
    exact stack_cycle_of_fails hw (eq_ret_iff.1 rfl) (.underflow hzero) nofun

/-- At every point of every run, inside of frames too, the stack holds the calls that are open. -/
theorem call_stack_discipline (config : Config) (entropy : Random.CipherKey)
    (logger : Option Log.Logger) (ops : List Operation) :
    let s := start config entropy logger
    s.follow (s.unroll ops) = s.after ops ∧
      ∀ steps, steps <+: s.unroll ops → (s.follow steps).HoldsCalls (s.executed steps) := by
  intro s
  exact ⟨follow_unroll ops s, fun steps _ =>
    holdsCalls_of_tracks (tracks_executed config entropy logger steps)⟩

/-- A program that calls a subroutine with nothing in it. -/
theorem return_behind_call :
    let program : List UInt8 := [0x22, 0x04, 0x00, 0x00, 0x00, 0xEE]
    let t := (launch program {} (Vector.replicate 8 0) none).state.cycle.state
    t.cycle.result = .ok .ret ∧ t.cycle.state.machine.cpu.pc = 0x202 := by
  intro program t
  let loaded := (launch program {} (Vector.replicate 8 0) none).state
  let called : Session := loaded.past (.call 0x204)
  have hload : Memory.initial.load program = .ok loaded.machine.memory := rfl
  have hcall : loaded.currentOpcode = .ok 0x2204 := Memory.readWord_load hload 0 rfl rfl
  have hret : called.currentOpcode = .ok 0x00EE := Memory.readWord_load hload 4 rfl rfl
  obtain ⟨hfirst, hstate⟩ : loaded.cycle.result = .ok (.call 0x204) ∧ loaded.cycle.state = called :=
    cycle_of_word rfl hcall rfl rfl
  have hsecond : t.cycle.result = .ok .ret := by
    rw [show t = called from hstate]
    exact (cycle_of_word rfl hret rfl rfl).1
  -- These hold of any session, and checking them needs no run of the program.
  have hsteps (s : Session) : [.load program, .cycle] <+: s.unroll [.load program, .cycle] :=
    List.prefix_rfl
  have hfollow (s : Session) :
      s.follow [.load program, .cycle] = (s.load program).state.cycle.state := rfl
  have hexecuted (s : Session) :
      s.executed [.load program, .cycle] = (s.load program).state.executes .cycle := by
    rw [executed, executes_of_ne_cycle (by decide), executed, executed, List.append_nil]
    rfl
  have hcalled : ((start {} (Vector.replicate 8 0) none).load program).state.executes .cycle =
      [(0x200, .call 0x204)] := executes_of_ok hfirst
  have hholds := (call_stack_discipline {} (Vector.replicate 8 0) none [.load program, .cycle]).2 _
    (hsteps _)
  rw [hfollow, hexecuted, hcalled] at hholds
  have htop := hholds.ret hsecond
  exact ⟨hsecond, (Option.some_inj.1 htop).symm⟩

end Session

end ChipEight
