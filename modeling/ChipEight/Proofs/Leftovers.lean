import ChipEight.Proofs.Effects
import ChipEight.Proofs.Runs

namespace ChipEight

namespace CallStack

variable {s t : CallStack}

/-- The open calls are the slots below the depth. -/
theorem frames_eq_iff :
    t.frames = s.frames ↔ t.depth = s.depth ∧ ∀ k < s.depth.val, t.slots[k]? = s.slots[k]? := by
  have hget (u : CallStack) (k : Nat) :
      u.frames[k]? = if k < u.depth.val then u.slots[k]? else none := by
    simp [frames, List.getElem?_take]
  constructor
  · intro h
    have hdepth : t.depth = s.depth := by
      apply Fin.ext
      rw [← frames_length t, ← frames_length s, h]
    refine ⟨hdepth, fun k hk => ?_⟩
    have hslot := congrArg (·[k]?) h
    simp only [hget, hdepth, if_pos hk] at hslot
    exact hslot
  · rintro ⟨hdepth, hslots⟩
    apply List.ext_getElem?
    intro k
    rw [hget, hget, hdepth]
    split
    · rename_i hk
      exact hslots k hk
    · rfl

/-- A call fails or succeeds on the open calls alone. -/
theorem push?_congr (h : t.frames = s.frames) (a : UInt16) :
    (s.push? a = none ∧ t.push? a = none) ∨
      ∃ u v, s.push? a = some u ∧ t.push? a = some v ∧ v.frames = u.frames := by
  have hdepth := (frames_eq_iff.1 h).1
  cases hs : s.push? a with
  | none =>
    have ht : t.push? a = none := by
      rw [push?_eq_none, hdepth]
      exact push?_eq_none.1 hs
    exact .inl ⟨rfl, ht⟩
  | some u =>
    cases ht : t.push? a with
    | none =>
      rw [push?_eq_none, hdepth, ← push?_eq_none (a := a), hs] at ht
      cases ht
    | some v =>
      refine .inr ⟨u, v, rfl, rfl, ?_⟩
      rw [frames_push? ht, frames_push? hs, h]

/-- So does a return, and it goes where the latest open call says. -/
theorem pop?_congr (h : t.frames = s.frames) :
    (s.pop? = none ∧ t.pop? = none) ∨
      ∃ a u v, s.pop? = some (a, u) ∧ t.pop? = some (a, v) ∧ v.frames = u.frames := by
  have hdepth := (frames_eq_iff.1 h).1
  cases hs : s.pop? with
  | none =>
    have ht : t.pop? = none := by
      rw [pop?_eq_none, hdepth]
      exact pop?_eq_none.1 hs
    exact .inl ⟨rfl, ht⟩
  | some popped =>
    cases ht : t.pop? with
    | none =>
      rw [pop?_eq_none, hdepth, ← pop?_eq_none, hs] at ht
      cases ht
    | some popped' =>
      rw [frames_pop? ht, frames_pop? hs] at h
      obtain ⟨hframes, haddress⟩ := List.append_inj' h rfl
      have haddress' : popped'.1 = popped.1 := List.singleton_inj.1 haddress
      refine .inr ⟨popped.1, popped.2, popped'.2, rfl, ?_, hframes⟩
      rw [← haddress']

end CallStack

namespace Machine

/-- The machine with another call stack and other keys held. -/
def refit (m : Machine) (stack : CallStack) (held : Vector Bool 16) : Machine :=
  { m with cpu := { m.cpu with stack := stack, keypad := { m.cpu.keypad with held := held } } }

variable {m n : Machine} {stack : CallStack} (held : Vector Bool 16)

/-- Neither has to do with what registers and memory exchange. -/
theorem sparesRegisters_refit (stack : CallStack) : Cpu.SparesRegisters fun c =>
    { c with stack := stack, keypad := { c.keypad with held := held } } where
  index _ := rfl
  get _ _ := rfl
  set _ _ _ := rfl
  setMany _ _ := by simp only [Cpu.setMany, Cpu.get]

/-- Most instructions look at neither. -/
theorem refit_execute {i : Instruction} (hret : i ≠ .ret) (hcall : ∀ target, i ≠ .call target) :
    (m.refit stack held).execute i = (m.execute i).within (·.refit stack held) := by
  cases i with
  | ret => exact absurd rfl hret
  | call target => exact absurd rfl (hcall target)
  | skipIf test =>
    have hholds : (m.refit stack held).cpu.holds test = m.cpu.holds test := by
      cases test <;> rfl
    simp only [execute, hholds]
    split <;> rfl
  | awaitKey x =>
    have hlatch : (m.refit stack held).cpu.keypad.latch = m.cpu.keypad.latch := rfl
    simp only [execute, hlatch]
    split <;> rfl
  | combine op x y => cases op <;> rfl
  | draw x y height => exact draw_mapCpu (sparesRegisters_refit held stack) m x y height
  | storeDecimal x =>
    have hx : (m.refit stack held).cpu.get x = m.cpu.get x := rfl
    simp only [execute, hx]
    exact store_mapCpu (sparesRegisters_refit held stack) m _
  | dump x => exact store_mapCpu (sparesRegisters_refit held stack) m _
  | restore x => exact restore_mapCpu (sparesRegisters_refit held stack) m x
  | _ => rfl

theorem execute_refit (h : stack.frames = m.cpu.stack.frames) (i : Instruction) :
    ∃ stack', stack'.frames = (m.execute i).state.cpu.stack.frames ∧
      (m.refit stack held).execute i = (m.execute i).within (·.refit stack' held) := by
  by_cases hret : i = .ret
  · subst hret
    have hpop : (m.refit stack held).cpu.stack.pop? = stack.pop? := rfl
    rcases CallStack.pop?_congr h with ⟨hm, hn⟩ | ⟨a, u, v, hm, hn, hframes⟩
    · simp only [execute, hpop, hm, hn]
      exact ⟨stack, h, rfl⟩
    · simp only [execute, hpop, hm, hn]
      exact ⟨v, hframes, rfl⟩
  · by_cases hcall : ∃ target, i = .call target
    · obtain ⟨target, rfl⟩ := hcall
      have hpush : (m.refit stack held).cpu.stack.push? (m.refit stack held).cpu.pc =
          stack.push? m.cpu.pc := rfl
      rcases CallStack.push?_congr h m.cpu.pc with ⟨hm, hn⟩ | ⟨u, v, hm, hn, hframes⟩
      · simp only [execute, hpush, hm, hn]
        exact ⟨stack, h, rfl⟩
      · simp only [execute, hpush, hm, hn]
        exact ⟨v, hframes, rfl⟩
    · have hstack := (effect_execute m i).stack hret (not_exists.1 hcall)
      refine ⟨stack, ?_, refit_execute held hret (not_exists.1 hcall)⟩
      rw [hstack]
      exact h

theorem cycle_refit (h : stack.frames = m.cpu.stack.frames) :
    ∃ stack', stack'.frames = m.cycle.state.cpu.stack.frames ∧
      (m.refit stack held).cycle = m.cycle.within (·.refit stack' held) := by
  rcases cycle_cases m with ⟨fault, hw, hc⟩ | ⟨w, hw, hd, hc⟩ | ⟨w, i, hw, hd, hc⟩
  · rw [hc, cycle_of_fault (m := m.refit stack held) hw]
    exact ⟨stack, h, rfl⟩
  · rw [hc, cycle_of_unknown (m := m.refit stack held) hw hd]
    exact ⟨stack, h, rfl⟩
  · have hfetched : stack.frames = m.fetched.cpu.stack.frames := h
    obtain ⟨stack', hframes, hexecute⟩ := execute_refit held hfetched i
    have hsame : (m.refit stack held).fetched = m.fetched.refit stack held := rfl
    rw [hc, cycle_of_decoded (m := m.refit stack held) hw hd, hsame, hexecute]
    exact ⟨stack', hframes, rfl⟩

/-- Machines that agree on everything but the slots at the depth and above and the held keys. -/
structure Resembles (m n : Machine) : Prop where
  depth : n.cpu.stack.depth = m.cpu.stack.depth
  slots : ∀ k < m.cpu.stack.depth.val, n.cpu.stack.slots[k]? = m.cpu.stack.slots[k]?
  latch : n.cpu.keypad.latch = m.cpu.keypad.latch
  others : n = { m with cpu := { m.cpu with stack := n.cpu.stack, keypad := n.cpu.keypad } }

theorem resembles_iff : m.Resembles n ↔
    ∃ stack held, stack.frames = m.cpu.stack.frames ∧ n = m.refit stack held := by
  constructor
  · intro h
    refine ⟨n.cpu.stack, n.cpu.keypad.held, CallStack.frames_eq_iff.2 ⟨h.depth, h.slots⟩, ?_⟩
    have hkeypad : n.cpu.keypad = { m.cpu.keypad with held := n.cpu.keypad.held } :=
      Keypad.ext rfl h.latch
    rw [refit, ← hkeypad]
    exact h.others
  · intro ⟨stack, held, hframes, hn⟩
    obtain ⟨hdepth, hslots⟩ := CallStack.frames_eq_iff.1 hframes
    subst hn
    exact ⟨hdepth, hslots, rfl, rfl⟩

/-- So the next instruction of both is the same. -/
theorem Resembles.pc (h : m.Resembles n) : n.cpu.pc = m.cpu.pc := by
  rw [h.others]

end Machine

namespace Session

variable {s t : Session} {α β : Type}

/-- Sessions that agree on everything but the slots at the depth and above and the held keys. -/
structure Resembles (s t : Session) : Prop where
  machine : s.machine.Resembles t.machine
  halted : t.halted = s.halted
  logger : t.logger = s.logger

/-- The same answer and the same records, and sessions that resemble each other. -/
structure Echoes (o p : Outcome Session α) : Prop where
  result : p.result = o.result
  records : p.records = o.records
  state : o.state.Resembles p.state

/-- What a caller is told and what is recorded, operation by operation. -/
def told (ops : List Operation) (s : Session) : List (Except Fault Answer × List Log.Record) :=
  (s.history ops).map fun entry => (entry.2.result, entry.2.records)

theorem told_cons (s : Session) (op : Operation) (ops : List Operation) :
    s.told (op :: ops) =
      ((s.perform op).result, (s.perform op).records) :: (s.perform op).state.told ops := rfl

theorem Echoes.map {o p : Outcome Session α} (h : Echoes o p) (f : α → β) :
    Echoes (o.map f) (p.map f) where
  result := congrArg (Except.map f) h.result
  records := h.records
  state := h.state

theorem Echoes.andThen {o p : Outcome Session α} (h : Echoes o p)
    {next : α → Session → Outcome Session β}
    (hnext : ∀ a s t, s.Resembles t → Echoes (next a s) (next a t)) :
    Echoes (o.andThen next) (p.andThen next) := by
  cases hr : o.result with
  | error fault =>
    rw [Outcome.andThen_error hr, Outcome.andThen_error (h.result.trans hr), h.records]
    exact ⟨rfl, rfl, h.state⟩
  | ok a =>
    have hafter := hnext a _ _ h.state
    rw [Outcome.andThen_ok hr, Outcome.andThen_ok (h.result.trans hr), h.records, hafter.records]
    exact ⟨hafter.result, rfl, hafter.state⟩

namespace Resembles

theorem cycle (h : s.Resembles t) : Echoes s.cycle t.cycle := by
  obtain ⟨stack, held, hframes, hmachine⟩ := Machine.resembles_iff.1 h.machine
  obtain ⟨stack', hframes', hcycle⟩ := Machine.cycle_refit held hframes
  rw [← hmachine] at hcycle
  have hstate : s.machine.cycle.state.Resembles t.machine.cycle.state := by
    rw [hcycle]
    exact Machine.resembles_iff.2 ⟨stack', held, hframes', rfl⟩
  have hresult : t.machine.cycle.result = s.machine.cycle.result := by rw [hcycle]; rfl
  have hrecords : t.machine.cycle.records = s.machine.cycle.records := by rw [hcycle]; rfl
  cases hh : s.halted with
  | true =>
    rw [cycle_of_halted hh, cycle_of_halted (h.halted.trans hh)]
    exact ⟨rfl, rfl, h⟩
  | false =>
    have hh' := h.halted.trans hh
    cases hr : s.machine.cycle.result with
    | ok i =>
      rw [cycle_of_ok hh hr, cycle_of_ok hh' (hresult.trans hr), hrecords]
      exact ⟨rfl, rfl, hstate, h.halted, h.logger⟩
    | error fault =>
      rw [cycle_of_error hh hr, cycle_of_error hh' (hresult.trans hr), hrecords, h.logger]
      exact ⟨rfl, rfl, hstate, rfl, rfl⟩

theorem tick (h : s.Resembles t) : s.tick.Resembles t.tick := by
  obtain ⟨stack, held, hframes, hmachine⟩ := Machine.resembles_iff.1 h.machine
  refine ⟨Machine.resembles_iff.2 ⟨stack, held, hframes, ?_⟩, h.halted, h.logger⟩
  simp only [Session.tick, hmachine]
  rfl

theorem setKey (h : s.Resembles t) (key : Option Key) :
    (s.setKey key).Resembles (t.setKey key) := by
  obtain ⟨stack, held, hframes, hmachine⟩ := Machine.resembles_iff.1 h.machine
  refine ⟨Machine.resembles_iff.2 ⟨stack, held, hframes, ?_⟩, h.halted, h.logger⟩
  simp only [Session.setKey, hmachine]
  rfl

theorem load (h : s.Resembles t) (program : List UInt8) :
    Echoes (s.load program) (t.load program) := by
  obtain ⟨stack, held, hframes, hmachine⟩ := Machine.resembles_iff.1 h.machine
  have hmemory : t.machine.memory = s.machine.memory := by rw [hmachine]; rfl
  simp only [Session.load, hmemory, h.logger]
  cases s.machine.memory.load program with
  | error fault => exact ⟨rfl, rfl, h⟩
  | ok memory =>
    refine ⟨rfl, rfl, Machine.resembles_iff.2 ⟨stack, held, hframes, ?_⟩, h.halted, rfl⟩
    simp only [hmachine]
    rfl

theorem frame (h : s.Resembles t) (n : Nat) : Echoes (s.frame n) (t.frame n) := by
  induction n generalizing s t with
  | zero => exact ⟨rfl, rfl, h.tick⟩
  | succ n ih => exact h.cycle.andThen fun i u v huv => (ih huv).map _

/-- Polling is the one operation that looks at the held keys. -/
theorem perform (h : s.Resembles t) {op : Operation} (hop : ∀ down, op ≠ .poll down) :
    Echoes (s.perform op) (t.perform op) := by
  cases op with
  | load program => exact (h.load program).map _
  | cycle => exact h.cycle.map _
  | frame cycles => exact (h.frame cycles).map _
  | tick => exact ⟨rfl, rfl, h.tick⟩
  | setKey key => exact ⟨rfl, rfl, h.setKey key⟩
  | poll down => exact absurd rfl (hop down)

end Resembles

/-- What returned calls have left on the stack and which keys are held show in nothing that a
program does, nor in what it can bring about. -/
theorem leftovers_do_not_show {s t : Session} (h : s.Resembles t) (ops : List Operation)
    (hops : ∀ down, .poll down ∉ ops) :
    t.told ops = s.told ops ∧ (s.after ops).Resembles (t.after ops) := by
  induction ops generalizing s t with
  | nil => exact ⟨rfl, h⟩
  | cons op ops ih =>
    have hop (down : List Key) : op ≠ .poll down := fun heq =>
      hops down (heq ▸ List.mem_cons_self)
    have hrest (down : List Key) : .poll down ∉ ops := fun hmem =>
      hops down (List.mem_cons_of_mem op hmem)
    have hfirst := h.perform hop
    obtain ⟨htold, hafter⟩ := ih hfirst.state hrest
    refine ⟨?_, hafter⟩
    simp only [told, history, List.map_cons] at htold ⊢
    rw [hfirst.result, hfirst.records, htold]

/-- A program that calls a subroutine and returns from it. Neither addresses in the unused slots of
the stack nor held keys mislead it. -/
theorem return_over_leftovers :
    let program : List UInt8 := [0x22, 0x04, 0x00, 0x00, 0x00, 0xEE]
    let s := (launch program {} (Vector.replicate 8 0) none).state
    let stack : CallStack := ⟨Vector.replicate 16 0xABC, 0⟩
    let t := { s with machine := s.machine.refit stack (Vector.replicate 16 true) }
    s.Resembles t ∧ t.machine ≠ s.machine ∧ t.told [.cycle, .cycle] = s.told [.cycle, .cycle] ∧
      (t.after [.cycle, .cycle]).machine.cpu.pc = 0x202 := by
  intro program s stack t
  let called : Session := s.past (.call 0x204)
  have hload : Memory.initial.load program = .ok s.machine.memory := rfl
  have hcall : s.currentOpcode = .ok 0x2204 := Memory.readWord_load hload 0 rfl rfl
  have hret : called.currentOpcode = .ok 0x00EE := Memory.readWord_load hload 4 rfl rfl
  have hcalled : s.cycle.state = called := (cycle_of_word rfl hcall rfl rfl).2
  have hreturned : called.cycle.state.machine.cpu.pc = 0x202 := by
    rw [(cycle_of_word rfl hret rfl rfl).2]
    rfl
  have hframes : stack.frames = s.machine.cpu.stack.frames := rfl
  have hresembles : s.Resembles t :=
    ⟨Machine.resembles_iff.2 ⟨stack, _, hframes, rfl⟩, rfl, rfl⟩
  -- This holds of any session, and checking it needs no run of the program.
  have hafter (s : Session) : s.after [.cycle, .cycle] = s.cycle.state.cycle.state := rfl
  obtain ⟨htold, hlater⟩ := leftovers_do_not_show hresembles [.cycle, .cycle] (by simp)
  refine ⟨hresembles, ?_, htold, ?_⟩
  · intro hsame
    have hslot := congrArg (fun m : Machine => m.cpu.stack.slots[0]) hsame
    cases hslot
  · rw [hlater.machine.pc, hafter, hcalled]
    exact hreturned

end Session

end ChipEight
