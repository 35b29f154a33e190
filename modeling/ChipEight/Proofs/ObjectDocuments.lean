import ChipEight.Proofs.Documents
import ChipEight.Proofs.JsonSources

namespace ChipEight

namespace Json

variable {α : Type} {name : String}

/-- A document that is an object with these members. -/
def Holds (document : String) (ms : List (String × Json)) : Prop :=
  parse document = some (.record ms)

/-- Members with names that are text are those of a record. -/
theorem exists_record {members : Members} (h : namesAreText members = true) :
    ∃ ms, object members = .record ms := by
  induction members with
  | nil => exact ⟨[], rfl⟩
  | cons m members ih =>
    rw [namesAreText, List.all_cons, Bool.and_eq_true, Option.isSome_iff_exists] at h
    obtain ⟨⟨name, hname⟩, hmembers⟩ := h
    obtain ⟨ms, hms⟩ := ih hmembers
    rw [record, object.injEq] at hms
    refine ⟨(name, m.2) :: ms, ?_⟩
    simp only [record, List.map_cons, ← hms, Text.ofString_of_string? hname]

/-- The value of a field among members with names that are text. -/
def fieldOf? (name : String) (ms : List (String × Json)) : Option (Option Json) :=
  field? name (ms.map fun (name, v) => (.ofString name, v))

/-- The values that members give to a name. -/
def given (name : String) (ms : List (String × Json)) : List Json :=
  (ms.filter (·.1 = name)).map (·.2)

theorem given_cons (name : String) (m : String × Json) (ms : List (String × Json)) :
    given name (m :: ms) = if m.1 = name then m.2 :: given name ms else given name ms := by
  by_cases hm : m.1 = name <;> simp [given, hm]

theorem fieldOf?_eq (name : String) (ms : List (String × Json)) :
    fieldOf? name ms = match given name ms with
      | [] => some none
      | [v] => some (some v)
      | _ => none := by
  rw [fieldOf?, field?, valuesOf_record]
  rfl

theorem fieldOf?_eq_absent {ms : List (String × Json)} :
    fieldOf? name ms = some none ↔ given name ms = [] := by
  rw [fieldOf?_eq]
  split <;> simp_all

theorem fieldOf?_eq_present {ms : List (String × Json)} {v : Json} :
    fieldOf? name ms = some (some v) ↔ given name ms = [v] := by
  rw [fieldOf?_eq]
  split <;> simp_all

theorem fieldOf?_of_repeated {ms : List (String × Json)} (h : 1 < (given name ms).length) :
    fieldOf? name ms = none := by
  rw [fieldOf?_eq]
  split <;> simp_all

theorem fieldOf?_of_perm {ms ms' : List (String × Json)}
    (h : (given name ms).Perm (given name ms')) : fieldOf? name ms = fieldOf? name ms' := by
  cases hms : given name ms with
  | nil =>
    rw [hms, List.nil_perm] at h
    rw [fieldOf?_eq_absent.2 hms, fieldOf?_eq_absent.2 h]
  | cons v vs =>
    cases vs with
    | nil =>
      rw [hms, List.singleton_perm] at h
      rw [fieldOf?_eq_present.2 hms, fieldOf?_eq_present.2 h.symm]
    | cons w vs =>
      -- Two values or more are refused in any order.
      have hlength : 1 < (given name ms).length := by simp [hms]
      rw [fieldOf?_of_repeated hlength, fieldOf?_of_repeated (h.length_eq ▸ hlength)]

theorem given_perm (name : String) {ms ms' : List (String × Json)} (h : ms.Perm ms') :
    (given name ms).Perm (given name ms') :=
  (h.filter _).map _

theorem given_filter {fields : List String} (h : name ∈ fields) (ms : List (String × Json)) :
    given name (ms.filter (·.1 ∈ fields)) = given name ms := by
  have htest : (fun m : String × Json => decide (m.1 = name) && decide (m.1 ∈ fields)) =
      fun m => decide (m.1 = name) := by
    funext m
    by_cases hm : m.1 = name <;> simp [hm, h]
  rw [given, List.filter_filter, htest, given]

theorem length_given (name : String) (ms : List (String × Json)) :
    (given name ms).length = (ms.map (·.1)).count name := by
  rw [given, List.length_map, ← List.countP_eq_length_filter, List.count_eq_countP,
    List.countP_map]
  rfl

/-- What the members of an object say about a field: it is present once, or absent and has its
default, if there is one. -/
inductive Gives (name : String) (decode : Json → Option α) (default : Option α)
    (ms : List (String × Json)) (a : α) : Prop
  | present {v : Json} (hgiven : given name ms = [v]) (hdecode : decode v = some a)
  | absent (hgiven : given name ms = []) (hdefault : default = some a)

theorem gives_iff {decode : Json → Option α} {default : Option α} {ms : List (String × Json)}
    {a : α} : Gives name decode default ms a ↔
      ∃ o, fieldOf? name ms = some o ∧ o.elim default decode = some a := by
  constructor
  · rintro (⟨hgiven, hdecode⟩ | ⟨hgiven, hdefault⟩)
    · exact ⟨_, fieldOf?_eq_present.2 hgiven, hdecode⟩
    · exact ⟨_, fieldOf?_eq_absent.2 hgiven, hdefault⟩
  · rintro ⟨o, hfield, ha⟩
    cases o with
    | none => exact .absent (fieldOf?_eq_absent.1 hfield) ha
    | some v => exact .present (fieldOf?_eq_present.1 hfield) ha

/-- A field that has to be present. -/
theorem gives_required {decode : Json → Option α} {ms : List (String × Json)} {a : α} :
    Gives name decode none ms a ↔ ∃ v, fieldOf? name ms = some (some v) ∧ decode v = some a := by
  rw [gives_iff]
  constructor
  · rintro ⟨o, hfield, ha⟩
    cases o with
    | none => cases ha
    | some v => exact ⟨v, hfield, ha⟩
  · rintro ⟨v, hfield, ha⟩
    exact ⟨some v, hfield, ha⟩

/-- A field that is null if it is absent. -/
theorem gives_nullable {f : Json → Option α} {ms : List (String × Json)} {a : Option α} :
    Gives name (nullable f) (some none) ms a ↔
      ∃ o, fieldOf? name ms = some o ∧ (o.getD .null).nullable f = some a := by
  have hnull (o : Option Json) : o.elim (some none) (nullable f) = (o.getD .null).nullable f := by
    cases o <;> rfl
  simp only [gives_iff, hnull]

end Json

/-- How documents that are objects are read: each field once, by its name, and nothing else. -/
structure ReadsObjects {α : Type} (parse : String → Option α) (fields : List String)
    (Says : List (String × Json) → α → Prop) : Prop where
  accepted : ∀ document ms, Json.Holds document ms →
    ∀ a, parse document = some a ↔ Says ms a
  order : ∀ document document' ms ms', Json.Holds document ms → Json.Holds document' ms' →
    ms.Perm ms' → parse document = parse document'
  /-- Members that are not fields may be put in and left out anywhere. -/
  others : ∀ document document' ms ms', Json.Holds document ms → Json.Holds document' ms' →
    ms.filter (·.1 ∈ fields) = ms'.filter (·.1 ∈ fields) → parse document = parse document'
  repeated : ∀ document ms, Json.Holds document ms →
    ∀ name ∈ fields, 1 < (ms.map (·.1)).count name → parse document = none
  /-- Names have to be text. -/
  names : ∀ document members a, Json.parse document = some (.object members) →
    parse document = some a → ∃ ms, Json.Holds document ms

theorem readsObjects_of_decode {α : Type} {decode : Json → Option α} {fields : List String}
    {Says : List (String × Json) → α → Prop}
    (hmeaning : ∀ ms a, decode (.record ms) = some a ↔ Says ms a)
    (hsame : ∀ ms ms', (∀ name ∈ fields, Json.fieldOf? name ms = Json.fieldOf? name ms') →
      decode (.record ms) = decode (.record ms'))
    (hrepeated : ∀ ms, ∀ name ∈ fields, Json.fieldOf? name ms = none → decode (.record ms) = none)
    (hnames : ∀ members a, decode (.object members) = some a → Json.namesAreText members = true) :
    ReadsObjects (fun document => (Json.parse document).bind decode) fields Says where
  accepted document ms hholds a := by
    rw [Json.Holds] at hholds
    simp only [hholds, Option.bind_some]
    exact hmeaning ms a
  order document document' ms ms' hholds hholds' hperm := by
    rw [Json.Holds] at hholds hholds'
    simp only [hholds, hholds', Option.bind_some]
    exact hsame ms ms' fun name _ => Json.fieldOf?_of_perm (Json.given_perm name hperm)
  others document document' ms ms' hholds hholds' hfilter := by
    rw [Json.Holds] at hholds hholds'
    simp only [hholds, hholds', Option.bind_some]
    refine hsame ms ms' fun name hname => Json.fieldOf?_of_perm ?_
    rw [← Json.given_filter hname, hfilter, Json.given_filter hname]
  repeated document ms hholds name hname hcount := by
    rw [Json.Holds] at hholds
    rw [← Json.length_given] at hcount
    simp only [hholds, Option.bind_some]
    exact hrepeated ms name hname (Json.fieldOf?_of_repeated hcount)
  names document members a hparse ha := by
    simp only [hparse, Option.bind_some] at ha
    obtain ⟨ms, hms⟩ := Json.exists_record (hnames members a ha)
    exact ⟨ms, hparse.trans (congrArg some hms)⟩

namespace Config

def fields : List String := ["shift_quirk", "rng_seed", "log_level"]

/-- What the members of an object say about a configuration. Every field may be absent. -/
structure Says (ms : List (String × Json)) (c : Config) : Prop where
  shiftInPlace : Json.Gives "shift_quirk" Json.bool? (some ({} : Config).shiftInPlace) ms
    c.shiftInPlace
  seed : Json.Gives "rng_seed" (Json.nullable Json.count?) (some ({} : Config).seed) ms c.seed
  logLevel : Json.Gives "log_level" (Json.choice? Log.Level.all Log.Level.name)
    (some ({} : Config).logLevel) ms c.logLevel

theorem ofJson?_record (ms : List (String × Json)) :
    ofJson? (.record ms) = (Json.fieldOf? "shift_quirk" ms).bind fun shift =>
      (Json.fieldOf? "rng_seed" ms).bind fun seed =>
        (Json.fieldOf? "log_level" ms).bind fun level => ofFields? shift seed level := by
  rw [Json.record, ofJson?, Json.namesAreText_record, if_pos rfl]
  rfl

theorem ofFields?_eq_some {shift seed level : Option Json} {c : Config} :
    ofFields? shift seed level = some c ↔
      shift.elim (some ({} : Config).shiftInPlace) Json.bool? = some c.shiftInPlace ∧
      seed.elim (some ({} : Config).seed) (Json.nullable Json.count?) = some c.seed ∧
      level.elim (some ({} : Config).logLevel) (Json.choice? Log.Level.all Log.Level.name) =
        some c.logLevel := by
  constructor
  · intro h
    obtain ⟨b, hshift, h⟩ := Option.bind_eq_some_iff.1 h
    obtain ⟨o, hseed, h⟩ := Option.bind_eq_some_iff.1 h
    obtain ⟨l, hlevel, h⟩ := Option.bind_eq_some_iff.1 h
    cases h
    exact ⟨hshift, hseed, hlevel⟩
  · rintro ⟨hshift, hseed, hlevel⟩
    exact Option.bind_eq_some_iff.2 ⟨_, hshift, Option.bind_eq_some_iff.2 ⟨_, hseed,
      Option.bind_eq_some_iff.2 ⟨_, hlevel, rfl⟩⟩⟩

theorem ofJson?_record_eq_some {ms : List (String × Json)} {c : Config} :
    ofJson? (.record ms) = some c ↔ Says ms c := by
  simp only [ofJson?_record, Option.bind_eq_some_iff, ofFields?_eq_some]
  constructor
  · rintro ⟨shift, hshift, seed, hseed, level, hlevel, hshift', hseed', hlevel'⟩
    exact ⟨Json.gives_iff.2 ⟨shift, hshift, hshift'⟩, Json.gives_iff.2 ⟨seed, hseed, hseed'⟩,
      Json.gives_iff.2 ⟨level, hlevel, hlevel'⟩⟩
  · rintro ⟨hshift, hseed, hlevel⟩
    obtain ⟨shift, hshift, hshift'⟩ := Json.gives_iff.1 hshift
    obtain ⟨seed, hseed, hseed'⟩ := Json.gives_iff.1 hseed
    obtain ⟨level, hlevel, hlevel'⟩ := Json.gives_iff.1 hlevel
    exact ⟨shift, hshift, seed, hseed, level, hlevel, hshift', hseed', hlevel'⟩

theorem reads_objects : ReadsObjects parse fields Says := by
  refine readsObjects_of_decode (fun _ _ => ofJson?_record_eq_some) ?_ ?_ ?_
  · intro ms ms' h
    simp only [fields, List.forall_mem_cons] at h
    simp only [ofJson?_record, h]
  · intro ms name hname hnone
    simp only [fields, List.mem_cons, List.not_mem_nil, or_false] at hname
    rcases hname with rfl | rfl | rfl <;> simp [ofJson?_record, hnone]
  · intro members c h
    rw [ofJson?] at h
    split at h
    · assumption
    · cases h

end Config

namespace Snapshot

def fields : List String :=
  ["registers", "stack", "stack_pointer", "pc", "i", "delay_timer", "sound_timer", "key"]

/-- What the members of an object say about a snapshot. Only the stack pointer and the key may be
absent. -/
structure Says (ms : List (String × Json)) (s : Snapshot) : Prop where
  registers : Json.Gives "registers" (Json.vector? 16 byte?) none ms s.registers
  stack : Json.Gives "stack" (Json.vector? 16 word?) none ms s.stack
  stackPointer : Json.Gives "stack_pointer" (Json.nullable Json.count?) (some none) ms
    s.stackPointer
  pc : Json.Gives "pc" word? none ms s.pc
  index : Json.Gives "i" word? none ms s.index
  delay : Json.Gives "delay_timer" byte? none ms s.delay
  sound : Json.Gives "sound_timer" byte? none ms s.sound
  key : Json.Gives "key" (Json.nullable (Json.choice? Key.all Key.name)) (some none) ms s.key

theorem ofJson?_record (ms : List (String × Json)) :
    ofJson? (.record ms) =
      (Json.fieldOf? "registers" ms).join.bind fun registers =>
      (Json.fieldOf? "stack" ms).join.bind fun stack =>
      (Json.fieldOf? "stack_pointer" ms).bind fun stackPointer =>
      (Json.fieldOf? "pc" ms).join.bind fun pc =>
      (Json.fieldOf? "i" ms).join.bind fun index =>
      (Json.fieldOf? "delay_timer" ms).join.bind fun delay =>
      (Json.fieldOf? "sound_timer" ms).join.bind fun sound =>
      (Json.fieldOf? "key" ms).bind fun key =>
        ofValues? registers stack (stackPointer.getD .null) pc index delay sound
          (key.getD .null) := by
  have hjoin {α β : Type} (o : Option (Option α)) (f : α → Option β) :
      o.join.bind f = o.bind (·.bind f) := by
    cases o <;> rfl
  rw [Json.record, ofJson?, Json.namesAreText_record, if_pos rfl]
  simp only [hjoin]
  rfl

theorem ofValues?_eq_some {registers stack stackPointer pc index delay sound key : Json}
    {s : Snapshot} :
    ofValues? registers stack stackPointer pc index delay sound key = some s ↔
      registers.vector? 16 byte? = some s.registers ∧ stack.vector? 16 word? = some s.stack ∧
      stackPointer.nullable Json.count? = some s.stackPointer ∧ word? pc = some s.pc ∧
      word? index = some s.index ∧ byte? delay = some s.delay ∧ byte? sound = some s.sound ∧
      key.nullable (Json.choice? Key.all Key.name) = some s.key := by
  constructor
  · intro h
    obtain ⟨_, hregisters, h⟩ := Option.bind_eq_some_iff.1 h
    obtain ⟨_, hstack, h⟩ := Option.bind_eq_some_iff.1 h
    obtain ⟨_, hpointer, h⟩ := Option.bind_eq_some_iff.1 h
    obtain ⟨_, hpc, h⟩ := Option.bind_eq_some_iff.1 h
    obtain ⟨_, hindex, h⟩ := Option.bind_eq_some_iff.1 h
    obtain ⟨_, hdelay, h⟩ := Option.bind_eq_some_iff.1 h
    obtain ⟨_, hsound, h⟩ := Option.bind_eq_some_iff.1 h
    obtain ⟨_, hkey, h⟩ := Option.bind_eq_some_iff.1 h
    cases h
    exact ⟨hregisters, hstack, hpointer, hpc, hindex, hdelay, hsound, hkey⟩
  · rintro ⟨hregisters, hstack, hpointer, hpc, hindex, hdelay, hsound, hkey⟩
    simp [ofValues?, hregisters, hstack, hpointer, hpc, hindex, hdelay, hsound, hkey]

theorem ofJson?_record_eq_some {ms : List (String × Json)} {s : Snapshot} :
    ofJson? (.record ms) = some s ↔ Says ms s := by
  simp only [ofJson?_record, Option.bind_eq_some_iff, Option.join_eq_some_iff, ofValues?_eq_some]
  constructor
  · rintro ⟨registers, hregisters, stack, hstack, pointer, hpointer, pc, hpc, index, hindex, delay,
      hdelay, sound, hsound, key, hkey, hregisters', hstack', hpointer', hpc', hindex', hdelay',
      hsound', hkey'⟩
    constructor
    · exact Json.gives_required.2 ⟨registers, hregisters, hregisters'⟩
    · exact Json.gives_required.2 ⟨stack, hstack, hstack'⟩
    · exact Json.gives_nullable.2 ⟨pointer, hpointer, hpointer'⟩
    · exact Json.gives_required.2 ⟨pc, hpc, hpc'⟩
    · exact Json.gives_required.2 ⟨index, hindex, hindex'⟩
    · exact Json.gives_required.2 ⟨delay, hdelay, hdelay'⟩
    · exact Json.gives_required.2 ⟨sound, hsound, hsound'⟩
    · exact Json.gives_nullable.2 ⟨key, hkey, hkey'⟩
  · rintro ⟨hregisters, hstack, hpointer, hpc, hindex, hdelay, hsound, hkey⟩
    obtain ⟨registers, hregisters, hregisters'⟩ := Json.gives_required.1 hregisters
    obtain ⟨stack, hstack, hstack'⟩ := Json.gives_required.1 hstack
    obtain ⟨pointer, hpointer, hpointer'⟩ := Json.gives_nullable.1 hpointer
    obtain ⟨pc, hpc, hpc'⟩ := Json.gives_required.1 hpc
    obtain ⟨index, hindex, hindex'⟩ := Json.gives_required.1 hindex
    obtain ⟨delay, hdelay, hdelay'⟩ := Json.gives_required.1 hdelay
    obtain ⟨sound, hsound, hsound'⟩ := Json.gives_required.1 hsound
    obtain ⟨key, hkey, hkey'⟩ := Json.gives_nullable.1 hkey
    exact ⟨registers, hregisters, stack, hstack, pointer, hpointer, pc, hpc, index, hindex, delay,
      hdelay, sound, hsound, key, hkey, hregisters', hstack', hpointer', hpc', hindex', hdelay',
      hsound', hkey'⟩

theorem reads_objects : ReadsObjects parse fields Says := by
  refine readsObjects_of_decode (fun _ _ => ofJson?_record_eq_some) ?_ ?_ ?_
  · intro ms ms' h
    simp only [fields, List.forall_mem_cons] at h
    simp only [ofJson?_record, h]
  · intro ms name hname hnone
    simp only [fields, List.mem_cons, List.not_mem_nil, or_false] at hname
    rcases hname with rfl | rfl | rfl | rfl | rfl | rfl | rfl | rfl <;>
      simp [ofJson?_record, hnone]
  · intro members s h
    rw [ofJson?] at h
    split at h
    · assumption
    · cases h

end Snapshot

/-- Objects are read by the names of their members: in any order, past any others, with no field
given twice, and with the defaults where fields may be absent. -/
theorem object_documents :
    (∀ entries : List Json.Entry,
      Json.Holds (Json.objectText entries) (entries.map Json.Entry.member)) ∧
    ReadsObjects Config.parse Config.fields Config.Says ∧
    ReadsObjects Snapshot.parse Snapshot.fields Snapshot.Says :=
  ⟨Json.parse_objectText, Config.reads_objects, Snapshot.reads_objects⟩

/-- A snapshot with its fields in another order, one of them with a name that is spelled with an
escape, between members that are no fields. -/
theorem snapshot_of_shuffled_object :
    Snapshot.parse ("\x7b\"pc\": 514, \"key\": \"A\", \"\\u0069\": 1280, " ++
      "\"x\": \x7b\"pc\": [null, 1.5e3]\x7d, \"stack_pointer\": 1, " ++
      "\"registers\": [7,0,0,0,0,0,0,0,0,0,0,0,0,0,0,255], " ++
      "\"stack\": [516,540,0,0,0,0,0,0,0,0,0,0,0,0,0,0], " ++
      "\"sound_timer\": 9, \"delay_timer\": 60, \"y\": true\x7d") =
    some {
      registers := #v[7, 0, 0, 0, 0, 0, 0, 0, 0, 0, 0, 0, 0, 0, 0, 255]
      stack := #v[516, 540, 0, 0, 0, 0, 0, 0, 0, 0, 0, 0, 0, 0, 0, 0]
      stackPointer := some 1
      pc := 514
      index := 1280
      delay := 60
      sound := 9
      key := some ⟨10⟩ } := by
  refine (object_documents.2.2.accepted _ [("pc", .ofNat 514), ("key", .ofString "A"),
    ("i", .ofNat 1280), ("x", .record [("pc", .array [.null, .number ⟨false, 1, [5], some 3⟩])]),
    ("stack_pointer", .ofNat 1),
    ("registers", .array ([7, 0, 0, 0, 0, 0, 0, 0, 0, 0, 0, 0, 0, 0, 0, 255].map .ofNat)),
    ("stack", .array ([516, 540, 0, 0, 0, 0, 0, 0, 0, 0, 0, 0, 0, 0, 0, 0].map .ofNat)),
    ("sound_timer", .ofNat 9), ("delay_timer", .ofNat 60), ("y", .bool true)] ?_ _).2 ?_
  · apply Json.parse_of_chars
    -- Long strings are evaluated piece by piece.
    rw [Json.parse]
    simp only [String.toList_append]
    decide +kernel
  · constructor
    all_goals exact .present rfl (by decide +kernel)

/-- A name may be spelled with escapes, and a member that is no field may have any value. -/
example : Config.parse "\x7b\"\\u0072ng_seed\": 7, \"x\": [\x7b\x7d]\x7d" =
    some { seed := some 7 } := by
  decide +kernel

end ChipEight
