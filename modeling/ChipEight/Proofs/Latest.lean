namespace ChipEight

/-- The latest event of some kind in a history, with what has happened since. -/
structure Latest {α : Type} (Kind : α → Prop) (history : List α) (event : α) (later : List α) :
    Prop where
  kind : Kind event
  split : ∃ before, history = before ++ event :: later
  since : ∀ e ∈ later, ¬ Kind e

theorem not_latest_nil {α : Type} {Kind : α → Prop} {event : α} {later : List α} :
    ¬ Latest Kind [] event later := by
  intro h
  obtain ⟨before, hsplit⟩ := h.split
  cases before <;> cases hsplit

/-- A further event is the latest if it is of the kind, and comes after the latest if not. -/
theorem latest_concat {α : Type} {Kind : α → Prop} {history : List α} {last event : α}
    {later : List α} :
    Latest Kind (history ++ [last]) event later ↔
      (Kind last ∧ event = last ∧ later = []) ∨
        (¬ Kind last ∧ ∃ rest, later = rest ++ [last] ∧ Latest Kind history event rest) := by
  constructor
  · intro h
    obtain ⟨before, hsplit⟩ := h.split
    rcases List.eq_nil_or_concat later with hnil | ⟨rest, last', hrest⟩
    · subst hnil
      obtain ⟨-, hlast⟩ := List.append_inj' hsplit rfl
      cases hlast
      exact .inl ⟨h.kind, rfl, rfl⟩
    · rw [List.concat_eq_append] at hrest
      subst hrest
      rw [← List.cons_append, ← List.append_assoc] at hsplit
      obtain ⟨hhistory, hlast⟩ := List.append_inj' hsplit rfl
      cases hlast
      refine .inr ⟨h.since last (List.mem_append_right rest (List.mem_singleton_self last)),
        rest, rfl, h.kind, ⟨before, hhistory⟩, fun e he => ?_⟩
      exact h.since e (List.mem_append_left _ he)
  · rintro (⟨hkind, rfl, rfl⟩ | ⟨hkind, rest, rfl, h⟩)
    · exact ⟨hkind, ⟨history, rfl⟩, nofun⟩
    · obtain ⟨before, hsplit⟩ := h.split
      refine ⟨h.kind, ⟨before, ?_⟩, fun e he => ?_⟩
      · rw [hsplit, List.append_assoc, List.cons_append]
      · rcases List.mem_append.1 he with he | he
        · exact h.since e he
        · cases List.mem_singleton.1 he
          exact hkind

end ChipEight
