import ChipEight.Proofs.Effects
import ChipEight.Proofs.Reachable
import ChipEight.Proofs.Runs

namespace ChipEight

namespace Random

theorem length_blockBytes (key : CipherKey) (number : Nat) :
    (blockBytes key number).length = 16 := by
  rw [blockBytes, List.length_map, Vector.length_toList]

theorem getElem_blockBytes (key : CipherKey) (k : Nat)
    (h : k % 16 < (blockBytes key (k / 16)).length) :
    (blockBytes key (k / 16))[k % 16] = streamByte key k := by
  simp only [blockBytes, List.getElem_map, Vector.getElem_toList]
  rfl

namespace Generator

/-- How many bytes have been taken: those of all blocks but for the ones still pending. -/
def taken (g : Generator) : Nat := 16 * g.blocks - g.pending.length

/-- The generator of a key that has given some bytes. It produces a block when the next byte is
wanted, so a whole number of blocks leaves nothing pending. -/
def after (key : CipherKey) (k : Nat) : Generator where
  key := key
  blocks := (k + 15) / 16
  pending := if k % 16 = 0 then [] else (blockBytes key (k / 16)).drop (k % 16)

theorem taken_after (key : CipherKey) (k : Nat) : (after key k).taken = k := by
  simp only [taken, after]
  split
  · rw [List.length_nil]
    omega
  · rw [List.length_drop, length_blockBytes]
    omega

theorem after_of_full {key : CipherKey} {k : Nat} (h : k % 16 = 0) :
    after key k = ⟨key, k / 16, []⟩ := by
  have hblocks : (k + 15) / 16 = k / 16 := by omega
  rw [after, if_pos h, hblocks]

theorem after_of_partial {key : CipherKey} {k : Nat} (h : k % 16 ≠ 0) :
    after key k = ⟨key, k / 16 + 1, (blockBytes key (k / 16)).drop (k % 16)⟩ := by
  have hblocks : (k + 15) / 16 = k / 16 + 1 := by omega
  rw [after, if_neg h, hblocks]

/-- Block after block, a generator gives the bytes of its stream. -/
theorem next_after (key : CipherKey) (k : Nat) :
    (after key k).next = (streamByte key k, after key (k + 1)) := by
  have hk : k % 16 < (blockBytes key (k / 16)).length := by
    rw [length_blockBytes]
    omega
  have hdrop : (blockBytes key (k / 16)).drop (k % 16) =
      streamByte key k :: (blockBytes key (k / 16)).drop (k % 16 + 1) := by
    rw [List.drop_eq_getElem_cons hk, getElem_blockBytes]
  by_cases hfull : k % 16 = 0
  · -- Nothing is pending, so a block is produced for this byte.
    have hpartial : (k + 1) % 16 ≠ 0 := by omega
    have hdiv : (k + 1) / 16 = k / 16 := by omega
    have hmod : (k + 1) % 16 = 1 := by omega
    rw [after_of_full hfull, after_of_partial hpartial, hdiv, hmod]
    rw [hfull, List.drop_zero] at hdrop
    rw [next, hdrop]
    rfl
  · rw [after_of_partial hfull, hdrop]
    by_cases hlast : (k + 1) % 16 = 0
    · -- This byte is the last of its block.
      have hdiv : (k + 1) / 16 = k / 16 + 1 := by omega
      have hnil : (blockBytes key (k / 16)).drop (k % 16 + 1) = [] := by
        rw [List.drop_eq_nil_iff, length_blockBytes]
        omega
      rw [after_of_full hlast, hdiv, hnil]
      rfl
    · have hdiv : (k + 1) / 16 = k / 16 := by omega
      have hmod : (k + 1) % 16 = k % 16 + 1 := by omega
      rw [after_of_partial hlast, hdiv, hmod]
      rfl

end Generator

end Random

def Instruction.isRandom : Instruction → Bool
  | .random .. => true
  | _ => false

theorem Instruction.isRandom_iff {i : Instruction} :
    i.isRandom = true ↔ ∃ x mask, i = .random x mask := by
  constructor
  · intro h
    cases i with
    | random x mask => exact ⟨x, mask, rfl⟩
    | _ => cases h
  · rintro ⟨x, mask, rfl⟩
    rfl

/-- How many random instructions are among those executed. -/
def randoms (executed : List Instruction) : Nat := executed.countP (·.isRandom)

theorem randoms_append (before later : List Instruction) :
    randoms (before ++ later) = randoms before + randoms later := List.countP_append

/-- What a cycle takes from a stream of which `k` bytes have been taken: one byte for a random
instruction, whatever its mask, and nothing otherwise. -/
structure TakesByte (key : Random.CipherKey) (k : Nat) (before after : Cpu)
    (answer : Except Fault Instruction) : Prop where
  taken : before.random.taken = k
  byte : ∀ x mask, answer = .ok (.random x mask) →
    after.get x = Random.streamByte key k &&& mask ∧ after.random.taken = k + 1
  kept : (∀ x mask, answer ≠ .ok (.random x mask)) → after.random = before.random

theorem takesByte_of_error {key : Random.CipherKey} {k : Nat} {c : Cpu}
    (h : c.random = .after key k) (fault : Fault) : TakesByte key k c c (.error fault) where
  taken := by rw [h, Random.Generator.taken_after]
  byte := nofun
  kept _ := rfl

namespace Machine

variable {m : Machine} {key : Random.CipherKey} {k : Nat}

theorem takesByte_cycle (h : m.cpu.random = .after key k) :
    TakesByte key k m.cpu m.cycle.state.cpu m.cycle.result where
  taken := by rw [h, Random.Generator.taken_after]
  byte x mask hr := by
    obtain ⟨hget, hrandom⟩ := random_cycle_of_ok hr
    rw [h, Random.Generator.next_after] at hget hrandom
    exact ⟨hget, by rw [hrandom, Random.Generator.taken_after]⟩
  kept := random_cycle

theorem random_cycle_after (h : m.cpu.random = .after key k) :
    m.cycle.state.cpu.random = .after key (k + randoms m.cycle.result.toOption.toList) := by
  by_cases hr : ∃ x mask, m.cycle.result = .ok (.random x mask)
  · obtain ⟨x, mask, hr⟩ := hr
    rw [(random_cycle_of_ok hr).2, hr, h, Random.Generator.next_after]
    rfl
  · have hnot (x : Register) (mask : UInt8) : m.cycle.result ≠ .ok (.random x mask) :=
      fun h => hr ⟨x, mask, h⟩
    have hnone : randoms m.cycle.result.toOption.toList = 0 := by
      cases hc : m.cycle.result with
      | error fault => rfl
      | ok i =>
        refine List.countP_eq_zero.2 fun j hj hi => ?_
        cases List.mem_singleton.1 hj
        obtain ⟨x, mask, hi⟩ := Instruction.isRandom_iff.1 hi
        exact hnot x mask (hc.trans (congrArg _ hi))
    rw [random_cycle hnot, hnone, h]
    rfl

end Machine

namespace Session

variable {s : Session} {key : Random.CipherKey} {k : Nat}

theorem takesByte_cycle (h : s.machine.cpu.random = .after key k) :
    TakesByte key k s.machine.cpu s.cycle.state.machine.cpu s.cycle.result := by
  cases hh : s.halted with
  | true =>
    rw [cycle_of_halted hh]
    exact takesByte_of_error h .halted
  | false =>
    rw [result_cycle hh, machine_cycle hh]
    exact Machine.takesByte_cycle h

theorem executes_cycle (s : Session) :
    (s.executes .cycle).map Prod.snd = s.cycle.result.toOption.toList := by
  cases h : s.cycle.result with
  | ok i =>
    rw [executes_of_ok h]
    rfl
  | error fault =>
    rw [executes_of_error h]
    rfl

theorem random_perform {op : Machine.Operation} (h : op ≠ .cycle) :
    (s.perform op.guarded).state.machine.cpu.random = s.machine.cpu.random := by
  obtain ⟨delay, sound, keypad, hcpu⟩ := cpu_perform (s := s) h
  rw [hcpu]

theorem random_perform_after (h : s.machine.cpu.random = .after key k) (op : Machine.Operation) :
    (s.perform op.guarded).state.machine.cpu.random =
      .after key (k + randoms ((s.executes op).map Prod.snd)) := by
  by_cases hop : op = .cycle
  · subst hop
    rw [executes_cycle]
    show s.cycle.state.machine.cpu.random = _
    cases hh : s.halted with
    | true =>
      rw [cycle_of_halted hh]
      exact h
    | false =>
      rw [machine_cycle hh, result_cycle hh]
      exact Machine.random_cycle_after h
  · rw [random_perform hop, executes_of_ne_cycle hop]
    exact h

theorem random_executed (s : Session) (h : s.machine.cpu.random = .ofKey key)
    (ops : List Machine.Operation) :
    (s.follow ops).machine.cpu.random =
      .after key (randoms ((s.executed ops).map Prod.snd)) := by
  apply executed_induction (P := fun past t =>
    t.machine.cpu.random = .after key (randoms (past.map Prod.snd))) h
  intro past t op hpast
  rw [List.map_append, randoms_append]
  exact random_perform_after hpast op

/-- A program that draws a byte under a mask again and again. -/
def drawLoop : List UInt8 := [0xC3, 0x0F, 0x12, 0x00]

/-- The steps of so many rounds of the program. -/
def drawRounds (n : Nat) : List Machine.Operation := (List.replicate n [.cycle, .cycle]).flatten

/-- A session that is about to draw the next byte. -/
structure AtDraw (s : Session) : Prop where
  live : s.halted = false
  loaded : Memory.initial.load drawLoop = .ok s.machine.memory
  pc : s.machine.cpu.pc = 0x200

theorem atDraw_round (h : s.AtDraw) : s.cycle.result = .ok (.random (nibble 3) 0x0F) ∧
    s.cycle.state.cycle.result = .ok (.jump (Fin.ofNat 4096 0x200)) ∧
    s.cycle.state.cycle.state.AtDraw := by
  let drawn : Session := s.past (.random (nibble 3) 0x0F)
  have hpc : s.machine.cpu.pc.toNat = 0x200 := by
    rw [h.pc]
    rfl
  have hpc' : drawn.machine.cpu.pc.toNat = 0x202 := by
    show (s.machine.cpu.pc + 2).toNat = _
    rw [h.pc]
    rfl
  obtain ⟨hdraw, hdrawn⟩ : s.cycle.result = .ok (.random (nibble 3) 0x0F) ∧ s.cycle.state = drawn :=
    cycle_of_next? h.live (Machine.next?_of_load h.loaded 0 rfl rfl hpc rfl) rfl
  have hloaded : Memory.initial.load drawLoop = .ok drawn.machine.memory := h.loaded
  obtain ⟨hjump, hjumped⟩ := cycle_of_next? (s := drawn) (i := .jump (Fin.ofNat 4096 0x200)) h.live
    (Machine.next?_of_load hloaded 2 rfl rfl hpc' rfl) rfl
  rw [hdrawn, hjumped]
  exact ⟨hdraw, hjump, h.live, h.loaded, rfl⟩

/-- Every round takes one byte. -/
theorem atDraw_rounds (n : Nat) (h : s.AtDraw) : (s.follow (drawRounds n)).AtDraw ∧
    randoms ((s.executed (drawRounds n)).map Prod.snd) = n := by
  induction n generalizing s with
  | zero => exact ⟨h, rfl⟩
  | succ n ih =>
    obtain ⟨hdraw, hjump, hagain⟩ := atDraw_round h
    obtain ⟨hlast, hcount⟩ := ih hagain
    have hrounds : drawRounds (n + 1) = .cycle :: .cycle :: drawRounds n := rfl
    have hexecuted : s.executed (drawRounds (n + 1)) =
        [(s.machine.cpu.pc, .random (nibble 3) 0x0F)] ++
          ([(s.cycle.state.machine.cpu.pc, .jump (Fin.ofNat 4096 0x200))] ++
            s.cycle.state.cycle.state.executed (drawRounds n)) := by
      rw [hrounds, executed, executes_of_ok hdraw, ← executes_of_ok hjump]
      rfl
    refine ⟨hlast, ?_⟩
    rw [hexecuted, List.map_append, List.map_append, randoms_append, randoms_append, hcount]
    show 1 + (0 + n) = n + 1
    omega

end Session

namespace Ensemble

variable {n : Nat}

/-- What an operation makes one of the processors execute. -/
def executes (e : Ensemble n) (i : Fin n) (op : Operation n) : List Instruction :=
  if op = .cycle i then (e.cycle i).result.toOption.toList else []

/-- What one of the processors executes while operations are performed, oldest first. -/
def executed (i : Fin n) : List (Operation n) → Ensemble n → List Instruction
  | [], _ => []
  | op :: ops, e => e.executes i op ++ executed i ops (e.perform op)

theorem cpu_put (e : Ensemble n) (i j : Fin n) (m : Machine) :
    ((e.put i m).machine j).cpu = if i = j then m.cpu else (e.machine j).cpu := by
  simp only [put, machine, Fin.getElem_fin, Vector.getElem_set, Fin.ext_iff]

theorem cpu_modify (e : Ensemble n) (i j : Fin n) (f : Cpu → Cpu) :
    ((e.modify i f).machine j).cpu = if i = j then f (e.machine i).cpu else (e.machine j).cpu :=
  e.cpu_put i j { e.machine i with cpu := f (e.machine i).cpu }

theorem cpu_cycle (e : Ensemble n) (i : Fin n) :
    ((e.cycle i).state.machine i).cpu = (e.machine i).cycle.state.cpu := by
  show ((e.put i _).machine i).cpu = _
  rw [cpu_put, if_pos rfl]

theorem random_modify (e : Ensemble n) (i j : Fin n) {f : Cpu → Cpu}
    (h : (f (e.machine i).cpu).random = (e.machine i).cpu.random) :
    ((e.modify i f).machine j).cpu.random = (e.machine j).cpu.random := by
  rw [cpu_modify]
  split
  · rename_i hij
    rw [h, hij]
  · rfl

/-- Nothing that is done elsewhere touches the stream of a processor. -/
theorem random_perform (e : Ensemble n) {i : Fin n} {op : Operation n} (h : op ≠ .cycle i) :
    ((e.perform op).machine i).cpu.random = (e.machine i).cpu.random := by
  cases op with
  | cycle j =>
    have hij : j ≠ i := fun hij => h (congrArg _ hij)
    show ((e.put j _).machine i).cpu.random = _
    rw [cpu_put, if_neg hij]
  | tick j | setKey j key | poll j down => exact e.random_modify j i rfl
  | load program =>
    simp only [perform, load]
    split <;> rfl
  | store address bytes =>
    simp only [perform, store, Outcome.state_ofFault]
    rfl
  | plot x y value | clear => rfl

theorem takesByte_cycle {e : Ensemble n} {i : Fin n} {key : Random.CipherKey} {k : Nat}
    (h : (e.machine i).cpu.random = .after key k) :
    TakesByte key k (e.machine i).cpu ((e.cycle i).state.machine i).cpu (e.cycle i).result := by
  rw [cpu_cycle]
  exact Machine.takesByte_cycle h

theorem random_perform_after {e : Ensemble n} {i : Fin n} {key : Random.CipherKey} {k : Nat}
    (h : (e.machine i).cpu.random = .after key k) (op : Operation n) :
    ((e.perform op).machine i).cpu.random = .after key (k + randoms (e.executes i op)) := by
  by_cases hop : op = .cycle i
  · subst hop
    rw [executes, if_pos rfl]
    show ((e.cycle i).state.machine i).cpu.random = _
    rw [cpu_cycle]
    exact Machine.random_cycle_after h
  · rw [random_perform e hop, executes, if_neg hop]
    exact h

theorem random_executed (i : Fin n) {key : Random.CipherKey} (ops : List (Operation n)) {k : Nat}
    (e : Ensemble n) (h : (e.machine i).cpu.random = .after key k) :
    ((e.after ops).machine i).cpu.random = .after key (k + randoms (e.executed i ops)) := by
  induction ops generalizing e k with
  | nil => exact h
  | cons op ops ih =>
    have hnext := ih (e.perform op) (random_perform_after h op)
    rw [executed, randoms_append, ← Nat.add_assoc]
    exact hnext

end Ensemble

/-- Every random instruction takes the next byte of its own processor's stream, and nothing else
takes any. This holds at every point of a session, and for processors that share a memory. -/
theorem random_stream :
    (∀ (config : Config) (seed : UInt64) (entropy : Random.CipherKey) (logger : Option Log.Logger)
      (ops : List Session.Operation),
      let s := Session.start { config with seed := some seed } entropy logger
      s.follow (s.unroll ops) = s.after ops ∧ ∀ steps, steps <+: s.unroll ops →
        let t := s.follow steps
        TakesByte (.ofSeed seed) (randoms ((s.executed steps).map Prod.snd)) t.machine.cpu
            t.cycle.state.machine.cpu t.cycle.result ∧
          ∀ op : Machine.Operation, op ≠ .cycle →
            (t.perform op.guarded).state.machine.cpu.random = t.machine.cpu.random) ∧
    (∀ n (configs : Vector Config n) (seeds : Vector UInt64 n) (entropy : Vector Random.CipherKey n)
      (logger : Option Log.Logger) (ops : List (Ensemble.Operation n)) (i : Fin n),
      let e := Ensemble.start
        (Vector.zipWith (fun config seed => { config with seed := some seed }) configs seeds)
        entropy logger
      let f := e.after ops
      TakesByte (.ofSeed (seeds.get i)) (randoms (e.executed i ops)) (f.machine i).cpu
          ((f.cycle i).state.machine i).cpu (f.cycle i).result ∧
        ∀ op, op ≠ .cycle i →
          ((f.perform op).machine i).cpu.random = (f.machine i).cpu.random) := by
  constructor
  · intro config seed entropy logger ops s
    refine ⟨Session.follow_unroll ops s, fun steps _ => ⟨?_, fun op => Session.random_perform⟩⟩
    exact Session.takesByte_cycle (s.random_executed rfl steps)
  · intro n configs seeds entropy logger ops i e f
    have hstart : (e.machine i).cpu.random = .after (.ofSeed (seeds.get i)) 0 := by
      simp only [e, Ensemble.start, Ensemble.machine, Fin.getElem_fin, Vector.getElem_zipWith]
      rfl
    have hafter := Ensemble.random_executed i ops e hstart
    rw [Nat.zero_add] at hafter
    exact ⟨Ensemble.takesByte_cycle hafter, fun op => f.random_perform⟩

/-- The byte behind 64 draws, the first of the fifth block, under its mask. -/
theorem byte_of_fifth_block :
    let s := Session.start { seed := some 0 } (Vector.replicate 8 0) none
    let t := s.follow (.load Session.drawLoop :: Session.drawRounds 64)
    t.machine.cpu.random.taken = 64 ∧ t.cycle.result = .ok (.random (nibble 3) 0x0F) ∧
      t.cycle.state.machine.cpu.get (nibble 3) = 10 := by
  intro s t
  -- These hold of any steps, and checking them needs no run of the program.
  have hfollow (s : Session) (steps : List Machine.Operation) :
      s.follow (.load Session.drawLoop :: steps) = (s.load Session.drawLoop).state.follow steps := rfl
  have hexecuted (s : Session) (steps : List Machine.Operation) :
      s.executed (.load Session.drawLoop :: steps) =
        (s.load Session.drawLoop).state.executed steps := rfl
  have hlaw (steps : List Machine.Operation) :
      TakesByte (.ofSeed 0) (randoms ((s.executed steps).map Prod.snd)) (s.follow steps).machine.cpu
        (s.follow steps).cycle.state.machine.cpu (s.follow steps).cycle.result := by
    have hsteps : steps <+: s.unroll (steps.map (·.guarded)) :=
      ⟨[], (List.append_nil steps).trans (Session.unroll_guarded steps s).symm⟩
    exact ((random_stream.1 {} 0 (Vector.replicate 8 0) none _).2 steps hsteps).1
  have hstart : (s.load Session.drawLoop).state.AtDraw := ⟨rfl, rfl, rfl⟩
  obtain ⟨hlast, hcount⟩ := Session.atDraw_rounds 64 hstart
  obtain ⟨hresult, -⟩ := Session.atDraw_round hlast
  have htakes := hlaw (.load Session.drawLoop :: Session.drawRounds 64)
  rw [hexecuted, hfollow, hcount] at htakes
  have hstream : Random.streamByte (.ofSeed 0) 64 &&& 0x0F = 10 := by decide +kernel
  obtain ⟨hbyte, -⟩ := htakes.byte (nibble 3) 0x0F hresult
  rw [hstream] at hbyte
  rw [show t = _ from hfollow s _]
  exact ⟨htakes.taken, hresult, hbyte⟩

end ChipEight
