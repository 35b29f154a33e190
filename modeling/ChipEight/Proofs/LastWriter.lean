import ChipEight.Outcome
import ChipEight.Proofs.Latest
import ChipEight.Proofs.MemoryRange

namespace ChipEight.Memory

/-- What a caller can do to a memory. -/
inductive Call
  | load (program : List UInt8)
  | write (address : Nat) (byte : UInt8)
  deriving DecidableEq

namespace Call

/-- Memory has room for what the call brings. -/
def Fits : Call → Prop
  | .load program => program.length ≤ 3583
  | .write address _ => address < 4095

def Covers (a : Nat) : Call → Prop
  | .load program => 0x200 ≤ a ∧ a < 0x200 + program.length
  | .write address _ => a = address

/-- What the call brings for an address that it covers. -/
def byteAt (a : Nat) : Call → UInt8
  | .load program => program.getD (a - 0x200) 0
  | .write _ byte => byte

/-- The call succeeds and covers the address. -/
def Sets (a : Nat) (call : Call) : Prop := call.Fits ∧ call.Covers a

instance : DecidablePred Fits
  | .load program => inferInstanceAs (Decidable (program.length ≤ 3583))
  | .write address _ => inferInstanceAs (Decidable (address < 4095))

instance (a : Nat) : DecidablePred (Covers a)
  | .load program => inferInstanceAs (Decidable (0x200 ≤ a ∧ a < 0x200 + program.length))
  | .write address _ => inferInstanceAs (Decidable (a = address))

instance (a : Nat) : DecidablePred (Sets a) :=
  fun call => inferInstanceAs (Decidable (call.Fits ∧ call.Covers a))

/-- How the call fails if there is no room. -/
def refusal : Call → Fault
  | .load program => .programTooLarge program.length 3583
  | .write address _ => .addressOutOfBounds address

end Call

def attempt (m : Memory) : Call → Except Fault Memory
  | .load program => m.load program
  | .write address byte => m.write address byte

/-- Whoever makes a call that fails keeps the memory that they had. -/
def perform (call : Call) (m : Memory) : Outcome Memory Unit :=
  match m.attempt call with
  | .ok m' => .done m' ()
  | .error fault => .fail m fault []

/-- What is left after calls, whether or not they succeed. -/
def after (calls : List Call) (m : Memory) : Memory :=
  calls.foldl (fun m call => (m.perform call).state) m

variable {m : Memory} {call : Call} {calls : List Call} {a : Nat}

theorem attempt_of_not_fits (h : ¬ call.Fits) (m : Memory) :
    m.attempt call = .error call.refusal := by
  cases call with
  | load program => exact load_of_not_fits (Nat.lt_of_not_le h) m
  | write address byte => exact m.write_of_le (Nat.le_of_not_lt h) byte

/-- A program fills the addresses from 0x200 on, as far as it goes. -/
theorem get?_load_cases {m' : Memory} {program : List UInt8} (h : m.load program = .ok m')
    (a : Nat) :
    ((Call.load program).Covers a → m'.get? a = some ((Call.load program).byteAt a)) ∧
      (¬ (Call.load program).Covers a → m'.get? a = m.get? a) := by
  have hstart : programStart = 0x200 := rfl
  rw [get?_load h, hstart, Call.Covers, Call.byteAt]
  constructor
  · intro hc
    have hin : a - 0x200 < program.length := by omega
    rw [if_pos hc.1, List.getD_eq_getElem?_getD, List.getElem?_eq_getElem hin, Option.some_or,
      Option.getD_some]
  · intro hc
    split
    · have hbeyond : program.length ≤ a - 0x200 := by omega
      rw [List.getElem?_eq_none hbeyond, Option.none_or]
    · rfl

/-- A call that fits fills the addresses that it covers and no others. -/
theorem attempt_of_fits (h : call.Fits) (m : Memory) :
    ∃ m', m.attempt call = .ok m' ∧
      ∀ a, (call.Covers a → m'.get? a = some (call.byteAt a)) ∧
        (¬ call.Covers a → m'.get? a = m.get? a) := by
  cases call with
  | load program =>
    have hload : m.load program = .ok (m.writeMany programStart program).1 :=
      if_pos (show program.length ≤ maxProgram from h)
    exact ⟨_, hload, get?_load_cases hload⟩
  | write address byte =>
    have hwrite := m.write_of_lt h byte
    refine ⟨_, hwrite, fun a => ?_⟩
    rw [get?_write hwrite]
    exact ⟨fun hc => if_pos hc, fun hc => if_neg hc⟩

theorem perform_of_not_fits (h : ¬ call.Fits) (m : Memory) :
    m.perform call = .fail m call.refusal [] := by
  rw [perform, attempt_of_not_fits h]

theorem result_perform : (m.perform call).result = .ok () ↔ call.Fits := by
  constructor
  · intro h
    by_cases hfits : call.Fits
    · exact hfits
    · rw [perform_of_not_fits hfits] at h
      cases h
  · intro h
    obtain ⟨m', hm', -⟩ := attempt_of_fits h m
    rw [perform, hm']
    rfl

theorem get?_perform :
    (call.Sets a → (m.perform call).state.get? a = some (call.byteAt a)) ∧
      (¬ call.Sets a → (m.perform call).state.get? a = m.get? a) := by
  by_cases h : call.Fits
  · obtain ⟨m', hm', hbytes⟩ := attempt_of_fits h m
    obtain ⟨hcovered, hother⟩ := hbytes a
    rw [perform, hm', Outcome.state_done]
    exact ⟨fun hs => hcovered hs.2, fun hs => hother fun hc => hs ⟨h, hc⟩⟩
  · rw [perform_of_not_fits h]
    exact ⟨fun hs => absurd hs.1 h, fun _ => rfl⟩

/-- An address holds what the latest call to set it has brought, and what it held at first if there
was none. -/
structure Holds (m : Memory) (calls : List Call) (a : Nat) : Prop where
  set : ∀ call later, Latest (Call.Sets a) calls call later → m.get? a = some (call.byteAt a)
  unset : (∀ call ∈ calls, ¬ call.Sets a) → m.get? a = some (font.getD a 0)

theorem holds_initial (ha : a < size) : initial.Holds [] a where
  set _ _ h := absurd h not_latest_nil
  unset _ := get?_initial ha

theorem Holds.perform (h : m.Holds calls a) (call : Call) :
    (m.perform call).state.Holds (calls ++ [call]) a := by
  obtain ⟨hsets, hkeeps⟩ : (call.Sets a → (m.perform call).state.get? a = some (call.byteAt a)) ∧
    (¬ call.Sets a → (m.perform call).state.get? a = m.get? a) := get?_perform
  constructor
  case set =>
    intro c later hlatest
    rcases latest_concat.1 hlatest with ⟨hs, rfl, -⟩ | ⟨hs, rest, -, hrest⟩
    · exact hsets hs
    · rw [hkeeps hs]
      exact h.set c rest hrest
  case unset =>
    intro hnone
    rw [hkeeps (hnone call (List.mem_append_right _ (List.mem_singleton_self call)))]
    exact h.unset fun c hc => hnone c (List.mem_append_left _ hc)

theorem holds_after (ha : a < size) (calls : List Call) : (initial.after calls).Holds calls a := by
  -- The past has to vary for the induction to go through.
  have general (past : List Call) (m : Memory) (h : m.Holds past a) :
      (m.after calls).Holds (past ++ calls) a := by
    induction calls generalizing past m with
    | nil =>
      rw [List.append_nil]
      exact h
    | cons call calls ih =>
      rw [List.append_cons]
      exact ih _ _ (h.perform call)
  exact general [] initial (holds_initial ha)

/-- A memory that reads as a history of calls on a new one says. -/
structure Recalls (m : Memory) (calls : List Call) : Prop where
  byte : ∀ a < 4095, ∀ call later, Latest (Call.Sets a) calls call later →
    m.read a = .ok (call.byteAt a)
  initially : ∀ a < 4095, (∀ call ∈ calls, ¬ call.Sets a) → m.read a = .ok (font.getD a 0)
  outside : ∀ a, 4095 ≤ a → m.read a = .error (.addressOutOfBounds a)
  word : ∀ a, a + 1 < 4095 → ∃ high low w, m.read a = .ok high ∧ m.read (a + 1) = .ok low ∧
    m.readWord a = .ok w ∧ w.toNat = 256 * high.toNat + low.toNat
  wordOutside : ∀ a, 4095 ≤ a + 1 → m.readWord a = .error (.addressOutOfBounds (max a 4095))

theorem read_of_get? {byte : UInt8} (h : m.get? a = some byte) : m.read a = .ok byte := by
  rw [read, h]

theorem recalls_after (calls : List Call) : (initial.after calls).Recalls calls where
  byte a ha call later h := read_of_get? ((holds_after ha calls).set call later h)
  initially a ha h := read_of_get? ((holds_after ha calls).unset h)
  outside a ha := read_of_le _ ha
  word a ha := by
    refine ⟨_, _, _, read_of_lt _ (Nat.lt_of_succ_lt ha), read_of_lt _ ha, readWord_of_lt _ ha, ?_⟩
    rw [toNat_wordOf, Nat.mul_comm]
  wordOutside a ha := readWord_of_le _ ha

/-- Whatever calls have been made on a new memory, the latest that covers an address decides what
is read there; a call fails exactly if there is no room for it, and then it changes nothing. -/
theorem last_call_wins (calls : List Call) :
    let m := initial.after calls
    m.Recalls calls ∧ ∀ call, ((m.perform call).result = .ok () ↔ call.Fits) ∧
      (¬ call.Fits → m.perform call = .fail m call.refusal []) := by
  intro m
  exact ⟨recalls_after calls, fun call => ⟨result_perform, fun h => perform_of_not_fits h m⟩⟩

/-- A shorter program keeps the tail of a longer one, and a byte behind the end is refused. -/
theorem tail_of_longer_program :
    let m := initial.after [.load [1, 2, 3], .write 0x201 9, .load [7]]
    m.read 0x200 = .ok 7 ∧ m.read 0x201 = .ok 9 ∧ m.read 0x202 = .ok 3 ∧
      m.perform (.write 4095 5) = .fail m (.addressOutOfBounds 4095) [] := by
  intro m
  obtain ⟨hrecalls, hcalls⟩ := last_call_wins [.load [1, 2, 3], .write 0x201 9, .load [7]]
  refine ⟨?_, ?_, ?_, (hcalls (.write 4095 5)).2 (Nat.lt_irrefl 4095)⟩
  · have hlatest : Latest (Call.Sets 0x200) [.load [1, 2, 3], .write 0x201 9, .load [7]]
        (.load [7]) [] := ⟨by decide, ⟨[.load [1, 2, 3], .write 0x201 9], rfl⟩, by decide⟩
    exact hrecalls.byte 0x200 (by decide) _ _ hlatest
  · have hlatest : Latest (Call.Sets 0x201) [.load [1, 2, 3], .write 0x201 9, .load [7]]
        (.write 0x201 9) [.load [7]] := ⟨by decide, ⟨[.load [1, 2, 3]], rfl⟩, by decide⟩
    exact hrecalls.byte 0x201 (by decide) _ _ hlatest
  · have hlatest : Latest (Call.Sets 0x202) [.load [1, 2, 3], .write 0x201 9, .load [7]]
        (.load [1, 2, 3]) [.write 0x201 9, .load [7]] := ⟨by decide, ⟨[], rfl⟩, by decide⟩
    exact hrecalls.byte 0x202 (by decide) _ _ hlatest

end ChipEight.Memory
