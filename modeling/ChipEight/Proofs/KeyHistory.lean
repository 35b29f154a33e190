import ChipEight.Instruction
import ChipEight.Keypad
import ChipEight.Proofs.Latest

namespace ChipEight

namespace Keypad

/-- What can happen to a keypad. -/
inductive Event
  | press (k : Key)
  | release (k : Key)
  | setLatch (key : Option Key)
  deriving DecidableEq

/-- The event decides whether the key is held. -/
def Event.Moves (k : Key) (e : Event) : Prop := e = .press k ∨ e = .release k

/-- What an event puts into the latch, if it does so whatever was there. -/
def Event.gives : Event → Option (Option Key)
  | .press k => some (some k)
  | .release _ => none
  | .setLatch key => some key

/-- What a caller can do to a keypad. -/
inductive Call
  | event (e : Event)
  | poll (down : List Key)
  deriving DecidableEq

def happen (p : Keypad) : Event → Keypad
  | .press k => p.press k
  | .release k => p.release k
  | .setLatch key => p.setLatch key

def replay (es : List Event) (p : Keypad) : Keypad := es.foldl happen p

def perform (call : Call) (p : Keypad) : Keypad :=
  match call with
  | .event e => p.happen e
  | .poll down => p.poll down

def after (calls : List Call) (p : Keypad) : Keypad := calls.foldl (fun p call => p.perform call) p

/-- The held keys that a poll no longer finds down. -/
def left (p : Keypad) (down : List Key) : List Key :=
  Key.all.filter fun k => p.isHeld k && !down.contains k

/-- The keys that a poll finds down for the first time, in its order. -/
def joined (p : Keypad) (down : List Key) : List Key :=
  (down.filter fun k => !p.isHeld k).eraseDups

/-- A call in single events: a poll releases the held keys that are not down, then presses the keys
that are not held. -/
def events (p : Keypad) : Call → List Event
  | .event e => [e]
  | .poll down => (p.left down).map .release ++ (p.joined down).map .press

/-- The events of some calls. -/
def history : List Call → Keypad → List Event
  | [], _ => []
  | call :: calls, p => p.events call ++ history calls (p.perform call)

variable {p : Keypad}

theorem replay_append (before later : List Event) (p : Keypad) :
    p.replay (before ++ later) = (p.replay before).replay later := List.foldl_append

theorem replay_release {ks : List Key} (hnodup : ks.Nodup) (gone : Key → Bool) (p : Keypad) :
    ks.foldl (fun p k => if p.isHeld k && gone k then p.release k else p) p =
      p.replay ((ks.filter fun k => p.isHeld k && gone k).map .release) := by
  induction ks generalizing p with
  | nil => rfl
  | cons k ks ih =>
    obtain ⟨hk, hks⟩ := List.nodup_cons.1 hnodup
    rw [List.foldl_cons, ih hks]
    by_cases h : (p.isHeld k && gone k) = true
    · -- The release of this key does not bear on the others.
      have hrest : ks.filter (fun j => (p.release k).isHeld j && gone j) =
          ks.filter fun j => p.isHeld j && gone j := by
        refine List.filter_congr fun j hj => ?_
        have hne : j ≠ k := fun hjk => hk (hjk ▸ hj)
        rw [isHeld_release, bne_iff_ne.2 hne, Bool.and_true]
      rw [if_pos h, hrest, List.filter_cons, if_pos h]
      rfl
    · rw [if_neg h, List.filter_cons, if_neg h]

theorem pressNew_eq (ks : List Key) (p : Keypad) :
    p.pressNew ks = p.replay ((p.joined ks).map .press) := by
  induction ks generalizing p with
  | nil => rfl
  | cons k ks ih =>
    show (if p.isHeld k then p else p.press k).pressNew ks = _
    rw [ih]
    cases h : p.isHeld k with
    | true =>
      have hjoined : p.joined (k :: ks) = p.joined ks := by
        rw [joined, List.filter_cons_of_neg (by simp [h]), joined]
      rw [if_pos rfl, hjoined]
    | false =>
      have hjoined : p.joined (k :: ks) = k :: (p.press k).joined ks := by
        rw [joined, List.filter_cons_of_pos (by simp [h]), List.eraseDups_cons, List.filter_filter]
        have hrest : (fun j => !j == k && !p.isHeld j) = fun j => !(p.press k).isHeld j := by
          funext j
          rw [isHeld_press, Bool.not_or, Bool.and_comm]
        rw [hrest, joined]
      rw [if_neg (by decide), hjoined]
      rfl

theorem isHeld_replay_release (ks : List Key) (k : Key) (p : Keypad) :
    (p.replay (ks.map .release)).isHeld k = (p.isHeld k && !ks.contains k) := by
  induction ks generalizing p with
  | nil => rw [List.contains_nil, Bool.not_false, Bool.and_true]; rfl
  | cons j ks ih =>
    show ((p.release j).replay (ks.map .release)).isHeld k = _
    rw [ih, isHeld_release, List.contains_cons, Bool.not_or, Bool.and_assoc]
    rfl

theorem nodup_all : Key.all.Nodup := by decide

theorem releaseOthers_eq (p : Keypad) (down : List Key) :
    p.releaseOthers down = p.replay ((p.left down).map .release) :=
  replay_release nodup_all (fun k => !down.contains k) p

theorem joined_releaseOthers (p : Keypad) (down : List Key) :
    (p.releaseOthers down).joined down = p.joined down := by
  rw [joined, joined]
  refine congrArg List.eraseDups (List.filter_congr fun k hk => ?_)
  have hstays : (p.left down).contains k = false := by
    simp [left, hk]
  rw [releaseOthers_eq, isHeld_replay_release, hstays, Bool.not_false, Bool.and_true]

theorem poll_eq (p : Keypad) (down : List Key) : p.poll down = p.replay (p.events (.poll down)) := by
  rw [poll, pressNew_eq, joined_releaseOthers, releaseOthers_eq, events, replay_append]

theorem replay_events (p : Keypad) (call : Call) : p.replay (p.events call) = p.perform call := by
  cases call with
  | event e => rfl
  | poll down => exact (p.poll_eq down).symm

/-- The events lead where the calls lead. -/
theorem replay_history (calls : List Call) (p : Keypad) :
    p.replay (p.history calls) = p.after calls := by
  induction calls generalizing p with
  | nil => rfl
  | cons call calls ih =>
    rw [history, replay_append, replay_events, ih]
    rfl

/-- The keypad shows what a history says: a key is held if it was last pressed, and the latch holds
what was last put there unless that key has been released since. -/
structure Recalls (p : Keypad) (es : List Event) : Prop where
  held : ∀ k, p.isHeld k = true ↔ ∃ later, Latest (Event.Moves k) es (.press k) later
  latch : ∀ k, p.latch = some k ↔ ∃ e later,
    Latest (fun e => e.gives ≠ none) es e later ∧ e.gives = some (some k) ∧ .release k ∉ later

theorem recalls_initial : initial.Recalls [] where
  held k := by
    constructor
    · intro h
      simp [initial, isHeld] at h
    · rintro ⟨later, h⟩
      exact absurd h not_latest_nil
  latch k := by
    constructor
    · intro h
      cases h
    · rintro ⟨e, later, h, -⟩
      exact absurd h not_latest_nil

theorem held_concat {es : List Event} (k : Key) (e : Event) :
    (∃ later, Latest (Event.Moves k) (es ++ [e]) (.press k) later) ↔
      e = .press k ∨ e ≠ .release k ∧ ∃ later, Latest (Event.Moves k) es (.press k) later := by
  constructor
  · rintro ⟨later, h⟩
    rcases latest_concat.1 h with ⟨-, he, -⟩ | ⟨hmoves, rest, -, hrest⟩
    · exact .inl he.symm
    · exact .inr ⟨fun he => hmoves (.inr he), rest, hrest⟩
  · rintro (rfl | ⟨hrelease, later, h⟩)
    · exact ⟨[], latest_concat.2 (.inl ⟨.inl rfl, rfl, rfl⟩)⟩
    · by_cases hpress : e = .press k
      · exact ⟨[], latest_concat.2 (.inl ⟨.inl hpress, hpress.symm, rfl⟩)⟩
      · have hmoves : ¬ e.Moves k := fun h => h.elim hpress hrelease
        exact ⟨_, latest_concat.2 (.inr ⟨hmoves, later, rfl, h⟩)⟩

theorem latch_concat {es : List Event} (k : Key) (last : Event) :
    (∃ e later, Latest (fun e => e.gives ≠ none) (es ++ [last]) e later ∧
        e.gives = some (some k) ∧ .release k ∉ later) ↔
      last.gives = some (some k) ∨ last.gives = none ∧ last ≠ .release k ∧
        ∃ e later, Latest (fun e => e.gives ≠ none) es e later ∧ e.gives = some (some k) ∧
          .release k ∉ later := by
  constructor
  · rintro ⟨e, later, h, hgives, hkept⟩
    rcases latest_concat.1 h with ⟨-, rfl, -⟩ | ⟨hnone, rest, rfl, hrest⟩
    · exact .inl hgives
    · rw [List.mem_append, List.mem_singleton, not_or] at hkept
      exact .inr ⟨Classical.not_not.1 hnone, Ne.symm hkept.2, e, rest, hrest, hgives, hkept.1⟩
  · rintro (hgives | ⟨hnone, hlast, e, later, h, hgives, hkept⟩)
    · refine ⟨last, [], latest_concat.2 (.inl ⟨?_, rfl, rfl⟩), hgives, nofun⟩
      rw [hgives]
      exact nofun
    · refine ⟨e, later ++ [last], latest_concat.2 (.inr ⟨?_, later, rfl, h⟩), hgives, ?_⟩
      · exact fun h => h hnone
      · rw [List.mem_append, List.mem_singleton, not_or]
        exact ⟨hkept, hlast.symm⟩

theorem Recalls.happen {es : List Event} (h : p.Recalls es) (e : Event) :
    (p.happen e).Recalls (es ++ [e]) where
  held k := by
    rw [held_concat, ← h.held]
    cases e with
    | press j =>
      rw [Keypad.happen, isHeld_press]
      grind
    | release j =>
      rw [Keypad.happen, isHeld_release]
      grind
    | setLatch key =>
      rw [Keypad.happen, isHeld_setLatch]
      grind
  latch k := by
    rw [latch_concat, ← h.latch]
    cases e with
    | press j => simp [Keypad.happen, press, Event.gives]
    | release j =>
      simp only [Keypad.happen, release, Event.gives]
      grind
    | setLatch key => simp [Keypad.happen, setLatch, Event.gives]

theorem recalls_replay (es : List Event) : (initial.replay es).Recalls es := by
  -- The past has to vary for the induction to go through.
  have general (past : List Event) (p : Keypad) (h : p.Recalls past) :
      (p.replay es).Recalls (past ++ es) := by
    induction es generalizing past p with
    | nil =>
      rw [List.append_nil]
      exact h
    | cons e es ih =>
      rw [List.append_cons]
      exact ih _ _ (h.happen e)
  exact general [] initial recalls_initial

/-- What the latch shows is held. -/
def Honest (p : Keypad) : Prop := ∀ k, p.latch = some k → p.isHeld k = true

theorem Honest.happen (h : p.Honest) {e : Event} (he : ∀ k, e ≠ .setLatch (some k)) :
    (p.happen e).Honest := by
  intro k hk
  cases e with
  | press j =>
    cases hk
    simp [Keypad.happen]
  | release j =>
    simp only [Keypad.happen, release] at hk
    split at hk
    · cases hk
    · rename_i hj
      rw [Keypad.happen, isHeld_release, h k hk, Bool.true_and, bne_iff_ne]
      rintro rfl
      exact hj hk
  | setLatch key =>
    cases key with
    | none => cases hk
    | some j => exact absurd rfl (he j)

theorem Honest.replay {es : List Event} (h : p.Honest) (hes : ∀ k, .setLatch (some k) ∉ es) :
    (p.replay es).Honest := by
  induction es generalizing p with
  | nil => exact h
  | cons e es ih =>
    refine ih (h.happen fun k he => hes k ?_) fun k hk => hes k (List.mem_cons_of_mem _ hk)
    rw [he]
    exact List.mem_cons_self

theorem setLatch_of_mem_history {calls : List Call} {key : Option Key} :
    .setLatch key ∈ p.history calls → .event (.setLatch key) ∈ calls := by
  intro h
  induction calls generalizing p with
  | nil => cases h
  | cons call calls ih =>
    rcases List.mem_append.1 h with h | h
    · cases call with
      | event e =>
        rw [List.mem_singleton.1 h]
        exact List.mem_cons_self
      | poll down => simp [events] at h
    · exact List.mem_cons_of_mem _ (ih h)

/-- Whatever is done to a keypad, at every point its history says which keys are held and what the
latch shows; a latch that only presses fill never shows a key that is not held. -/
theorem keypad_recalls_history (calls : List Call) :
    initial.replay (initial.history calls) = initial.after calls ∧
      ∀ es, es <+: initial.history calls →
        (initial.replay es).Recalls es ∧
          ((∀ k, .event (.setLatch (some k)) ∉ calls) → (initial.replay es).Honest) := by
  refine ⟨replay_history calls initial, fun es hes => ⟨recalls_replay es, fun hcalls => ?_⟩⟩
  have hinitial : initial.Honest := nofun
  exact hinitial.replay fun k hk => hcalls k (setLatch_of_mem_history (hes.subset hk))

/-- A key that a poll finds down while it misses an older one. -/
theorem history_of_changed_keys :
    let one : Key := ⟨nibble 1⟩
    let twelve : Key := ⟨nibble 12⟩
    let calls : List Call := [.event (.press one), .poll [twelve, twelve]]
    initial.history calls = [.press one, .release one, .press twelve] ∧
      (initial.after calls).latch = some twelve ∧ (initial.after calls).Honest := by
  intro one twelve calls
  have hhistory : initial.history calls = [.press one, .release one, .press twelve] := by decide
  obtain ⟨hreplay, hpoint⟩ := keypad_recalls_history calls
  obtain ⟨hrecalls, hhonest⟩ := hpoint _ List.prefix_rfl
  rw [hreplay] at hrecalls hhonest
  have hfilled (k : Key) : .event (.setLatch (some k)) ∉ calls := by simp [calls]
  refine ⟨hhistory, (hrecalls.latch twelve).2 ?_, hhonest hfilled⟩
  rw [hhistory]
  exact ⟨.press twelve, [], ⟨nofun, ⟨[.press one, .release one], rfl⟩, nofun⟩, rfl, nofun⟩

end Keypad

end ChipEight
