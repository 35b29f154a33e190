import ChipEight.Config.Document
import ChipEight.Proofs.JsonRoundTrip
import ChipEight.Snapshot.Document

namespace ChipEight

namespace Json

variable {α : Type}

theorem namesAreText_record (ms : List (String × Json)) :
    namesAreText (ms.map fun (name, v) => (.ofString name, v)) = true := by
  simp [namesAreText, Text.string?_ofString]

theorem valuesOf_record (name : String) (ms : List (String × Json)) :
    valuesOf name (ms.map fun (name, v) => (.ofString name, v)) =
      (ms.filter (·.1 = name)).map (·.2) := by
  rw [valuesOf, List.filter_map, List.map_map]
  have htest : ((fun m : Text × Json => decide (m.1.string? = some name)) ∘
      fun (m : String × Json) => (Text.ofString m.1, m.2)) = fun m => decide (m.1 = name) := by
    funext m
    simp [Text.string?_ofString]
  rw [htest]
  rfl

/-- A field that stands once among the members of a record has the value it is given there. -/
theorem field?_record (name : String) {v : Json} {ms : List (String × Json)}
    (h : ms.filter (·.1 = name) = [(name, v)]) :
    field? name (ms.map fun (name, v) => (.ofString name, v)) = some (some v) := by
  rw [field?, valuesOf_record, h]
  rfl

theorem natural?_ofNat {n bound : Nat} (h : n < bound) : (ofNat n).natural? bound = some n := by
  simp [natural?, ofNat, h]

/-- An absent value is written as null, so nothing else may be. -/
theorem nullable_ofOption {f : Json → Option α} {g : α → Json} (hnull : ∀ a, g a ≠ .null)
    (h : ∀ a, f (g a) = some a) (o : Option α) : (ofOption g o).nullable f = some o := by
  cases o with
  | none => rfl
  | some a =>
    rw [ofOption, nullable]
    · rw [h, Option.map_some]
    · exact hnull a

theorem choice?_name {all : List α} {name : α → String} {a : α} (ha : a ∈ all)
    (hinj : ∀ b, name a = name b → a = b) : choice? all name (.ofString (name a)) = some a := by
  rw [ofString, choice?, ofName?]
  cases hfound : all.find? fun b => (Text.ofString (name a)).string? = some (name b) with
  | none =>
    have hnot := List.find?_eq_none.1 hfound a ha
    rw [Text.string?_ofString] at hnot
    simp at hnot
  | some b =>
    have hb := List.find?_some hfound
    rw [Text.string?_ofString, decide_eq_true_eq, Option.some_inj] at hb
    rw [hinj b hb]

theorem vector?_array {n : Nat} {f : Json → Option α} {g : α → Json} (h : ∀ a, f (g a) = some a)
    (v : Vector α n) : (array (v.toList.map g)).vector? n f = some v := by
  have hlist (as : List α) : (as.map g).mapM f = some as := by
    induction as with
    | nil => rfl
    | cons a as ih => simp [List.mapM_cons, h, ih]
  simp [vector?, hlist, Vector.toList]

end Json

theorem Log.Level.mem_all (l : Log.Level) : l ∈ all := by
  cases l <;> decide

theorem Log.Level.name_inj {l m : Log.Level} (h : l.name = m.name) : l = m := by
  have hall : ∀ l ∈ all, ∀ m ∈ all, l.name = m.name → l = m := by decide
  exact hall l l.mem_all m m.mem_all h

theorem Key.name_inj {j k : Key} (h : j.name = k.name) : j = k := by
  have hnumber : j.number.val = k.number.val := by
    have hlist := congrArg String.toList h
    unfold name at hlist
    split at hlist <;> split at hlist
    · rw [String.toList_append, String.toList_append] at hlist
      exact Numeral.decimal_inj.1 (String.toList_injective (List.append_cancel_left hlist))
    · simp [String.toList_append] at hlist
    · simp [String.toList_append] at hlist
    · exact Numeral.digitChar_inj (by omega) (by omega) (by simpa using hlist)
  cases j; cases k
  exact congrArg Key.mk (Fin.ext hnumber)

/-- What is written in one format, and what is read back. -/
structure RoundTrips {α : Type} (parse : String → Option α) (render : α → String) : Prop where
  parse_render : ∀ a, parse (render a) = some a
  /-- What is written for an accepted document says the same, and is written for itself. -/
  settled : ∀ document a, parse document = some a →
    parse (render a) = parse document ∧ (parse (render a)).map render = some (render a)
  /-- Documents that say the same, and only these, share what is written for them. -/
  canonical : ∀ document document' a b, parse document = some a → parse document' = some b →
    (render a = render b ↔ parse document = parse document')

theorem roundTrips_of_parse_render {α : Type} {parse : String → Option α} {render : α → String}
    (h : ∀ a, parse (render a) = some a) : RoundTrips parse render where
  parse_render := h
  settled document a hdocument := by
    rw [h, hdocument]
    exact ⟨rfl, rfl⟩
  canonical document document' a b ha hb := by
    rw [ha, hb]
    constructor
    · intro hrender
      rw [← h a, ← h b, hrender]
    · intro hsame
      rw [Option.some_inj.1 hsame]

/-- A 64-bit number or none. -/
theorem count?_ofOption (o : Option UInt64) :
    (Json.ofOption (fun n : UInt64 => .ofNat n.toNat) o).nullable Json.count? = some o := by
  refine Json.nullable_ofOption nofun (fun n => ?_) o
  rw [Json.count?, Json.natural?_ofNat n.toNat_lt, Option.map_some]
  exact congrArg some (UInt64.ofNat_toNat)

namespace Config

theorem ofJson?_toJson (c : Config) : ofJson? c.toJson = some c := by
  have hlevel : Json.choice? Log.Level.all Log.Level.name (.ofString c.logLevel.name) =
      some c.logLevel := Json.choice?_name c.logLevel.mem_all fun _ => Log.Level.name_inj
  rw [toJson, Json.record, ofJson?, Json.namesAreText_record, if_pos rfl,
    Json.field?_record "shift_quirk" rfl, Json.field?_record "rng_seed" rfl,
    Json.field?_record "log_level" rfl]
  simp only [Option.bind_eq_bind, Option.bind_some, ofFields?, Option.elim, count?_ofOption,
    hlevel]
  rfl

theorem parse_render (c : Config) : parse c.render = some c := by
  rw [parse, render, Json.parse_render, Option.bind_some, ofJson?_toJson]

end Config

namespace Snapshot

theorem byte?_ofNat (b : UInt8) : byte? (.ofNat b.toNat) = some b := by
  rw [byte?, Json.natural?_ofNat b.toNat_lt, Option.map_some]
  exact congrArg some (UInt8.ofNat_toNat)

theorem word?_ofNat (w : UInt16) : word? (.ofNat w.toNat) = some w := by
  rw [word?, Json.natural?_ofNat w.toNat_lt, Option.map_some]
  exact congrArg some (UInt16.ofNat_toNat)

theorem key?_ofOption (o : Option Key) :
    (Json.ofOption (fun k : Key => .ofString k.name) o).nullable (Json.choice? Key.all Key.name) =
      some o :=
  Json.nullable_ofOption nofun (fun k => Json.choice?_name k.mem_all fun _ => Key.name_inj) o

theorem ofJson?_toJson (s : Snapshot) : ofJson? s.toJson = some s := by
  rw [toJson, Json.record, ofJson?, Json.namesAreText_record, if_pos rfl,
    Json.field?_record "registers" rfl, Json.field?_record "stack" rfl,
    Json.field?_record "stack_pointer" rfl, Json.field?_record "pc" rfl,
    Json.field?_record "i" rfl, Json.field?_record "delay_timer" rfl,
    Json.field?_record "sound_timer" rfl, Json.field?_record "key" rfl]
  simp only [Option.bind_eq_bind, Option.bind_some, Option.getD_some, ofValues?,
    Json.vector?_array byte?_ofNat, Json.vector?_array word?_ofNat, count?_ofOption, word?_ofNat,
    byte?_ofNat, key?_ofOption]
  rfl

theorem parse_render (s : Snapshot) : parse s.render = some s := by
  rw [parse, render, Json.parse_render, Option.bind_some, ofJson?_toJson]

end Snapshot

/-- What is written of a configuration or of a snapshot can be read back, and is the one text that
is written for every document that says the same. -/
theorem documents_round_trip :
    RoundTrips Config.parse Config.render ∧ RoundTrips Snapshot.parse Snapshot.render :=
  ⟨roundTrips_of_parse_render Config.parse_render,
    roundTrips_of_parse_render Snapshot.parse_render⟩

end ChipEight
