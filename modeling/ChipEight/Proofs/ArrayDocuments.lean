import ChipEight.Proofs.ObjectDocuments

namespace ChipEight

namespace Json

/-- A document that is an array of these values. -/
def Lists (document : String) (vs : List Json) : Prop := parse document = some (.array vs)

theorem given_zip_of_not_mem {name : String} {names : List String} (h : name ∉ names)
    (vs : List Json) : given name (names.zip vs) = [] := by
  rw [given, List.map_eq_nil_iff, List.filter_eq_nil_iff]
  intro m hm
  have hname : m.1 ≠ name := by
    rintro rfl
    exact h (List.of_mem_zip hm).1
  simpa using hname

/-- Behind names that differ, each value is given to its own. -/
theorem given_zip {names : List String} (hnodup : names.Nodup) {i : Nat} {name : String}
    (hi : names[i]? = some name) (vs : List Json) :
    given name (names.zip vs) = vs[i]?.toList := by
  induction names generalizing i vs with
  | nil => cases hi
  | cons first names ih =>
    obtain ⟨hfirst, hnodup⟩ := List.nodup_cons.1 hnodup
    cases vs with
    | nil => rfl
    | cons v vs =>
      rw [List.zip_cons_cons, given_cons]
      cases i with
      | zero =>
        cases hi
        rw [if_pos rfl, given_zip_of_not_mem hfirst]
        rfl
      | succ i =>
        rw [List.getElem?_cons_succ] at hi ⊢
        have hne : first ≠ name := fun h => hfirst (h ▸ List.mem_of_getElem? hi)
        rw [if_neg hne, ih hnodup hi]

theorem fieldOf?_zip {names : List String} (hnodup : names.Nodup) {i : Nat} {name : String}
    (hi : names[i]? = some name) (vs : List Json) :
    fieldOf? name (names.zip vs) = some vs[i]? := by
  have hgiven := given_zip hnodup hi vs
  cases hv : vs[i]? with
  | none =>
    rw [hv] at hgiven
    exact fieldOf?_eq_absent.2 hgiven
  | some v =>
    rw [hv] at hgiven
    exact fieldOf?_eq_present.2 hgiven

end Json

/-- How documents that are arrays are read: as objects that give the fields their values in order,
if the length fits. -/
structure ReadsArrays {α : Type} (parse : String → Option α) (fields : List String)
    (Fits : Nat → Prop) : Prop where
  agrees : ∀ document document' vs, Json.Lists document vs →
    Json.Holds document' (fields.zip vs) → Fits vs.length → parse document = parse document'
  refused : ∀ document vs, Json.Lists document vs → ¬ Fits vs.length → parse document = none

theorem readsArrays_of_decode {α : Type} {decode : Json → Option α} {fields : List String}
    {Fits : Nat → Prop}
    (hagrees : ∀ vs, Fits vs.length → decode (.array vs) = decode (.record (fields.zip vs)))
    (hrefused : ∀ vs, ¬ Fits vs.length → decode (.array vs) = none) :
    ReadsArrays (fun document => (Json.parse document).bind decode) fields Fits where
  agrees document document' vs hlists hholds hfits := by
    rw [Json.Lists] at hlists
    rw [Json.Holds] at hholds
    simp only [hlists, hholds, Option.bind_some]
    exact hagrees vs hfits
  refused document vs hlists hfits := by
    rw [Json.Lists] at hlists
    simp only [hlists, Option.bind_some]
    exact hrefused vs hfits

namespace Config

theorem reads_arrays : ReadsArrays parse fields (· ≤ 3) := by
  refine readsArrays_of_decode (fun vs hfits => ?_) fun vs hfits => ?_
  · have hfield {i : Nat} {name : String} (hi : fields[i]? = some name) :
        Json.fieldOf? name (fields.zip vs) = some vs[i]? :=
      Json.fieldOf?_zip (by decide) hi vs
    rw [ofJson?_record, hfield (i := 0) rfl, hfield (i := 1) rfl, hfield (i := 2) rfl, ofJson?,
      if_pos hfits]
    rfl
  · rw [ofJson?, if_neg hfits]

end Config

namespace Snapshot

theorem reads_arrays : ReadsArrays parse fields (· = 8) := by
  refine readsArrays_of_decode (fun vs hfits => ?_) fun vs hfits => ?_
  · have hfield {i : Nat} {name : String} (hi : fields[i]? = some name) :
        Json.fieldOf? name (fields.zip vs) = some vs[i]? :=
      Json.fieldOf?_zip (by decide) hi vs
    rw [ofJson?_record, hfield (i := 0) rfl, hfield (i := 1) rfl, hfield (i := 2) rfl,
      hfield (i := 3) rfl, hfield (i := 4) rfl, hfield (i := 5) rfl, hfield (i := 6) rfl,
      hfield (i := 7) rfl]
    -- Only a list of eight values has the length.
    rcases vs with _ | ⟨registers, _ | ⟨stack, _ | ⟨stackPointer, _ | ⟨pc, _ | ⟨index, _ | ⟨delay,
      _ | ⟨sound, _ | ⟨key, _ | _⟩⟩⟩⟩⟩⟩⟩⟩
    all_goals first | rfl | cases hfits
  · rw [ofJson?]
    · intro ms hvs
      cases hvs
    · intro registers stack stackPointer pc index delay sound key hvs
      cases hvs
      exact hfits rfl

end Snapshot

/-- An array is read as the object that gives its values to the fields in order. A configuration
may leave out fields from the end on, a snapshot may not, and neither has further values. -/
theorem array_documents :
    (∀ sources : List Json.Source,
      Json.Lists (Json.arrayText sources) (sources.map Json.Source.value)) ∧
    (∀ (names : List String) (sources : List Json.Source),
      Json.Holds (Json.objectText (names.zipWith Json.Entry.ofName sources))
        (names.zip (sources.map Json.Source.value))) ∧
    ReadsArrays Config.parse Config.fields (· ≤ 3) ∧
    ReadsArrays Snapshot.parse Snapshot.fields (· = 8) := by
  refine ⟨Json.parse_arrayText, fun names sources => ?_, Config.reads_arrays,
    Snapshot.reads_arrays⟩
  have hmembers : (names.zipWith Json.Entry.ofName sources).map Json.Entry.member =
      names.zip (sources.map Json.Source.value) := by
    rw [List.map_zipWith, List.zip_map_right, List.zip, List.map_zipWith]
    rfl
  rw [← hmembers]
  exact Json.parse_objectText _

/-- A snapshot as an array, and as the object that gives the same values to its fields. -/
theorem snapshot_of_array :
    let document := "[[0,1,2,3,4,5,6,7,8,9,10,11,12,13,14,15], " ++
      "[514,0,0,0,0,0,0,0,0,0,0,0,0,0,0,0], 0, 516, 768, 7, 0, \"Key1\"]"
    let document' := "\x7b\"registers\":[0,1,2,3,4,5,6,7,8,9,10,11,12,13,14,15]," ++
      "\"stack\":[514,0,0,0,0,0,0,0,0,0,0,0,0,0,0,0],\"stack_pointer\":0," ++
      "\"pc\":516,\"i\":768,\"delay_timer\":7,\"sound_timer\":0,\"key\":\"Key1\"\x7d"
    Snapshot.parse document = Snapshot.parse document' ∧
      Snapshot.parse document = some {
        registers := Vector.ofFn fun k => k.val.toUInt8
        stack := #v[514, 0, 0, 0, 0, 0, 0, 0, 0, 0, 0, 0, 0, 0, 0, 0]
        stackPointer := some 0
        pc := 516
        index := 768
        delay := 7
        sound := 0
        key := some ⟨1⟩ } := by
  intro document document'
  let values : List Json := [.array ((List.range 16).map .ofNat),
    .array ((514 :: List.replicate 15 0).map .ofNat), .ofNat 0, .ofNat 516, .ofNat 768, .ofNat 7,
    .ofNat 0, .ofString "Key1"]
  have hlists : Json.Lists document values := by
    apply Json.parse_of_chars
    rw [Json.parse]
    simp only [document, String.toList_append]
    decide +kernel
  have hholds : Json.Holds document' (Snapshot.fields.zip values) := by
    apply Json.parse_of_chars
    rw [Json.parse]
    simp only [document', String.toList_append]
    decide +kernel
  refine ⟨array_documents.2.2.2.agrees _ _ values hlists hholds rfl, ?_⟩
  rw [Snapshot.parse, hlists, Option.bind_some]
  decide +kernel

/-- What ends early leaves out the last fields. -/
example : Config.parse "[false, 7]" =
    Config.parse "\x7b\"shift_quirk\": false, \"rng_seed\": 7\x7d" := by
  decide +kernel

end ChipEight
