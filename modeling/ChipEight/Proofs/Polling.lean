import ChipEight.Proofs.KeyHistory
import Mathlib.Data.List.Basic

namespace ChipEight.Keypad

/-- Of the keys that were not held, the one that a list of keys mentions last. Where a key is
mentioned again does not count. -/
structure LastJoined (p : Keypad) (down : List Key) (k : Key) : Prop where
  mem : k ∈ down
  fresh : p.isHeld k = false
  last : ∀ j ∈ down, p.isHeld j = false → down.idxOf j ≤ down.idxOf k

/-- What finding some keys down makes of a keypad. -/
structure Polled (p : Keypad) (down : List Key) (q : Keypad) : Prop where
  held : ∀ k, q.isHeld k = true ↔ k ∈ down
  joined : (∃ k ∈ down, p.isHeld k = false) →
    ∃ k, q.latch = some k ∧ ∀ j, p.LastJoined down j ↔ j = k
  left : (∀ k ∈ down, p.isHeld k = true) →
    (∃ k, p.latch = some k ∧ p.isHeld k = true ∧ k ∉ down) → q.latch = none
  kept : (∀ k ∈ down, p.isHeld k = true) →
    (¬ ∃ k, p.latch = some k ∧ p.isHeld k = true ∧ k ∉ down) → q.latch = p.latch

variable {p q : Keypad} {down ks : List Key} {j k : Key}

/-- Keypads are told apart by what they hold and show. -/
theorem ext_isHeld (held : ∀ k, p.isHeld k = q.isHeld k) (latch : p.latch = q.latch) : p = q := by
  apply Keypad.ext
  · apply Vector.ext
    intro i hi
    exact held ⟨⟨i, hi⟩⟩
  · exact latch

namespace LastJoined

theorem unique (hj : p.LastJoined down j) (hk : p.LastJoined down k) : j = k := by
  have hindex : down.idxOf j = down.idxOf k :=
    Nat.le_antisymm (hk.last j hj.mem hj.fresh) (hj.last k hk.mem hk.fresh)
  exact (List.idxOf_inj hj.mem).1 hindex

/-- A key that is held already takes no part. -/
theorem cons_of_held (hj : p.isHeld j = true) (h : p.LastJoined ks k) :
    p.LastJoined (j :: ks) k := by
  have hne (i : Key) (hi : p.isHeld i = false) : j ≠ i := by
    rintro rfl
    simp [hj] at hi
  constructor
  case mem => exact List.mem_cons_of_mem j h.mem
  case fresh => exact h.fresh
  case last =>
    intro i hi hfresh
    have htail : i ∈ ks := List.mem_of_ne_of_mem (hne i hfresh).symm hi
    rw [List.idxOf_cons_ne ks (hne i hfresh), List.idxOf_cons_ne ks (hne k h.fresh)]
    exact Nat.succ_le_succ (h.last i htail hfresh)

/-- A key that joins later comes behind one that joins now. -/
theorem cons_of_press (h : (p.press j).LastJoined ks k) : p.LastJoined (j :: ks) k := by
  obtain ⟨hfresh, hkj⟩ : p.isHeld k = false ∧ k ≠ j := by simpa using h.fresh
  constructor
  case mem => exact List.mem_cons_of_mem j h.mem
  case fresh => exact hfresh
  case last =>
    intro i hi hi'
    by_cases hij : i = j
    · simp [hij]
    · have hbehind := h.last i (List.mem_of_ne_of_mem hij hi) (by simp [hi', hij])
      rw [List.idxOf_cons_ne ks (Ne.symm hij), List.idxOf_cons_ne ks (Ne.symm hkj)]
      exact Nat.succ_le_succ hbehind

theorem head (hj : p.isHeld j = false) (h : ∀ k ∈ ks, (p.press j).isHeld k = true) :
    p.LastJoined (j :: ks) j := by
  constructor
  case mem => exact List.mem_cons_self
  case fresh => exact hj
  case last =>
    intro i hi hfresh
    by_cases hij : i = j
    · simp [hij]
    · have hpressed := h i (List.mem_of_ne_of_mem hij hi)
      simp [hfresh, hij] at hpressed

end LastJoined

theorem pressNew_cons_of_held (hj : p.isHeld j = true) (ks : List Key) :
    p.pressNew (j :: ks) = p.pressNew ks := by
  simp [pressNew, hj]

theorem pressNew_cons_of_not_held (hj : p.isHeld j = false) (ks : List Key) :
    p.pressNew (j :: ks) = (p.press j).pressNew ks := by
  simp [pressNew, hj]

theorem pressNew_of_held (h : ∀ k ∈ down, p.isHeld k = true) : p.pressNew down = p := by
  induction down with
  | nil => rfl
  | cons j ks ih =>
    rw [pressNew_cons_of_held (h j List.mem_cons_self)]
    exact ih fun k hk => h k (List.mem_cons_of_mem j hk)

theorem isHeld_pressNew (p : Keypad) (down : List Key) (k : Key) :
    (p.pressNew down).isHeld k = (p.isHeld k || down.contains k) := by
  induction down generalizing p with
  | nil => simp [pressNew]
  | cons j ks ih =>
    cases hj : p.isHeld j with
    | true =>
      rw [pressNew_cons_of_held hj, ih]
      by_cases hk : k = j <;> simp [hj, hk]
    | false =>
      rw [pressNew_cons_of_not_held hj, ih, isHeld_press, List.contains_cons, Bool.or_assoc]

/-- The last key that joins is the one that stays in the latch. -/
theorem latch_pressNew (h : ∃ k ∈ down, p.isHeld k = false) :
    ∃ k, p.LastJoined down k ∧ (p.pressNew down).latch = some k := by
  induction down generalizing p with
  | nil => simp at h
  | cons j ks ih =>
    cases hj : p.isHeld j with
    | true =>
      have hrest : ∃ k ∈ ks, p.isHeld k = false := by simpa [hj] using h
      obtain ⟨k, hlast, hlatch⟩ := ih hrest
      rw [pressNew_cons_of_held hj]
      exact ⟨k, hlast.cons_of_held hj, hlatch⟩
    | false =>
      rw [pressNew_cons_of_not_held hj]
      by_cases hrest : ∃ k ∈ ks, (p.press j).isHeld k = false
      · obtain ⟨k, hlast, hlatch⟩ := ih hrest
        exact ⟨k, hlast.cons_of_press, hlatch⟩
      · have hheld : ∀ k ∈ ks, (p.press j).isHeld k = true := by
          intro k hk
          apply Bool.of_not_eq_false
          exact fun hfresh => hrest ⟨k, hk, hfresh⟩
        refine ⟨j, .head hj hheld, ?_⟩
        rw [pressNew_of_held hheld, press]

theorem latch_replay_release (ks : List Key) (p : Keypad) :
    (p.replay (ks.map .release)).latch = p.latch.filter fun k => !ks.contains k := by
  induction ks generalizing p with
  | nil => cases hlatch : p.latch <;> simp [replay, hlatch, Option.filter]
  | cons j ks ih =>
    show ((p.release j).replay (ks.map .release)).latch = _
    rw [ih]
    cases hlatch : p.latch with
    | none => simp [release, hlatch]
    | some k =>
      by_cases hk : k = j <;> simp [release, hlatch, hk, Option.filter]

theorem isHeld_releaseOthers (p : Keypad) (down : List Key) (k : Key) :
    (p.releaseOthers down).isHeld k = (p.isHeld k && down.contains k) := by
  rw [releaseOthers_eq, isHeld_replay_release]
  have hleft : (p.left down).contains k = (p.isHeld k && !down.contains k) := by
    rw [Bool.eq_iff_iff]
    simp [left, Key.mem_all]
  rw [hleft]
  cases p.isHeld k <;> simp

theorem isHeld_releaseOthers_of_mem (h : k ∈ down) :
    (p.releaseOthers down).isHeld k = p.isHeld k := by
  simp [isHeld_releaseOthers, h]

theorem latch_releaseOthers (p : Keypad) (down : List Key) :
    (p.releaseOthers down).latch =
      p.latch.filter fun k => !p.isHeld k || down.contains k := by
  rw [releaseOthers_eq, latch_replay_release]
  cases p.latch with
  | none => rfl
  | some k => cases hk : p.isHeld k <;> simp [left, Key.mem_all, hk, Option.filter]

/-- Releases do not bear on which keys join. -/
theorem LastJoined.of_releaseOthers (h : (p.releaseOthers down).LastJoined down k) :
    p.LastJoined down k := by
  constructor
  case mem => exact h.mem
  case fresh =>
    rw [← isHeld_releaseOthers_of_mem h.mem]
    exact h.fresh
  case last =>
    intro j hj hfresh
    apply h.last j hj
    rw [isHeld_releaseOthers_of_mem hj]
    exact hfresh

theorem polled_poll (p : Keypad) (down : List Key) : p.Polled down (p.poll down) := by
  have hlatch (hheld : ∀ k ∈ down, p.isHeld k = true) :
      (p.poll down).latch = p.latch.filter fun k => !p.isHeld k || down.contains k := by
    have hstill : ∀ k ∈ down, (p.releaseOthers down).isHeld k = true := by
      intro k hk
      rw [isHeld_releaseOthers_of_mem hk]
      exact hheld k hk
    rw [poll, pressNew_of_held hstill, latch_releaseOthers]
  constructor
  case held =>
    intro k
    simp [poll, isHeld_pressNew, isHeld_releaseOthers]
  case joined =>
    rintro ⟨j, hj, hfresh⟩
    rw [← isHeld_releaseOthers_of_mem hj] at hfresh
    obtain ⟨k, hlast, hshown⟩ := latch_pressNew ⟨j, hj, hfresh⟩
    refine ⟨k, hshown, fun i => ⟨fun hi => hi.unique hlast.of_releaseOthers, ?_⟩⟩
    rintro rfl
    exact hlast.of_releaseOthers
  case left =>
    rintro hheld ⟨k, hk, hkheld, hknot⟩
    simp [hlatch hheld, hk, hkheld, hknot]
  case kept =>
    intro hheld hkeeps
    rw [hlatch hheld]
    cases hk : p.latch with
    | none => rfl
    | some k =>
      have hin : p.isHeld k = true → k ∈ down := by
        intro hkheld
        by_cases hmem : k ∈ down
        · exact hmem
        · exact absurd ⟨k, hk, hkheld, hmem⟩ hkeeps
      cases hkheld : p.isHeld k with
      | false => simp [hkheld]
      | true => simp [hin hkheld]

/-- Finding the same keys down again changes nothing, whatever their order. -/
theorem poll_poll {again : List Key} (h : ∀ k, k ∈ again ↔ k ∈ down) :
    (p.poll down).poll again = p.poll down := by
  have hfirst := polled_poll p down
  have hsecond := polled_poll (p.poll down) again
  have hheld : ∀ k ∈ again, (p.poll down).isHeld k = true := fun k hk =>
    (hfirst.held k).2 ((h k).1 hk)
  apply ext_isHeld
  · intro k
    rw [Bool.eq_iff_iff, hsecond.held, hfirst.held, h]
  · apply hsecond.kept hheld
    rintro ⟨k, -, hk, hnot⟩
    exact hnot ((h k).2 ((hfirst.held k).1 hk))

/-- A poll leaves exactly the keys held that it finds down. The latch shows the last key that
joined; without one it is emptied if the key it shows was let go, and stays as it was otherwise.
Finding the same keys down again, in any order and any number of times, changes nothing. -/
theorem poll_latches_last_joined (p : Keypad) (down : List Key) :
    p.Polled down (p.poll down) ∧
      ∀ again, (∀ k, k ∈ again ↔ k ∈ down) → (p.poll down).poll again = p.poll down :=
  ⟨polled_poll p down, fun _ => poll_poll⟩

/-- Of two keys that join, the one listed once shows, not the one that is listed around it. A key
that only the latch knows of outlasts a poll without it. -/
theorem latch_of_repeated_key :
    let one : Key := ⟨nibble 1⟩
    let three : Key := ⟨nibble 3⟩
    let five : Key := ⟨nibble 5⟩
    let twelve : Key := ⟨nibble 12⟩
    let p := (initial.press one).setLatch (some three)
    let q := p.poll [twelve, one, five, twelve]
    q.latch = some five ∧ q.poll [five, twelve, one, one] = q ∧
      (p.poll [one]).latch = some three := by
  intro one three five twelve p q
  obtain ⟨hpolled, hagain⟩ := poll_latches_last_joined p [twelve, one, five, twelve]
  obtain ⟨hsame, -⟩ := poll_latches_last_joined p [one]
  have hlisted (k : Key) : k ∈ [five, twelve, one, one] ↔ k ∈ [twelve, one, five, twelve] := by
    simp only [List.mem_cons]
    grind
  refine ⟨?_, hagain _ hlisted, ?_⟩
  · have hlast : p.LastJoined [twelve, one, five, twelve] five :=
      ⟨by decide, by decide, by decide⟩
    obtain ⟨k, hshown, hunique⟩ := hpolled.joined ⟨five, by decide, by decide⟩
    rw [(hunique five).1 hlast]
    exact hshown
  · apply hsame.kept
    · decide
    · rintro ⟨k, hk, hheld, -⟩
      cases hk
      revert hheld
      decide

end ChipEight.Keypad
