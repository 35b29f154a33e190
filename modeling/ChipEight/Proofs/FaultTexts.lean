import ChipEight.Fault
import ChipEight.Proofs.Numerals

namespace ChipEight

namespace Numeral

/-- The hexadecimal digits, letters in upper case. -/
def hexDigits : List Char := "0123456789ABCDEF".toList

/-- Reads a hexadecimal numeral behind `0x`. -/
def ofHex? (text : String) : Option Nat :=
  match text.toList with
  | '0' :: 'x' :: cs => (cs.mapM hexDigit?).map valueOf
  | _ => none

/-- A numeral that is filled up with zeros to a number of places and longer only if it has to be. -/
structure Hexadecimal (places n : Nat) (text : String) : Prop where
  spelled : ∃ cs, text = "0x" ++ String.ofList cs ∧ (∀ c ∈ cs, c ∈ hexDigits) ∧
    places ≤ cs.length ∧ (places < cs.length → cs.head? ≠ some '0')
  value : ofHex? text = some n

theorem Hexadecimal.unique {places places' m n : Nat} {text : String}
    (h : Hexadecimal places m text) (h' : Hexadecimal places' n text) : m = n :=
  Option.some_inj.1 (h.value.symm.trans h'.value)

theorem mapM_spelled (ds : List (Fin 16)) : (spelled ds).mapM hexDigit? = some ds := by
  induction ds with
  | nil => rfl
  | cons d ds ih => rw [spelled_cons, List.mapM_cons, hexDigit?_digitChar, ih]; rfl

theorem mem_hexDigits : ∀ d : Fin 16, digitChar d ∈ hexDigits := by decide

theorem head_spelled {ds : List (Fin 16)} (h : (spelled ds).head? = some '0') :
    (ds.map (·.val)).head? = some 0 := by
  cases ds with
  | nil => cases h
  | cons d ds =>
    have hzero : digitChar d = digitChar 0 := Option.some_inj.1 h
    rw [List.map_cons, List.head?_cons, digitChar_inj d.isLt (by decide) hzero]

theorem hexadecimal_hex {places : Nat} (hplaces : 1 ≤ places) (n : Nat) :
    Hexadecimal places n (hex places n) := by
  obtain ⟨ds, hspelled, hvalue, hmap⟩ := exists_spelled 16 (by decide) places n
  have hlength : ds.length = places - (digits 16 n).length + (digits 16 n).length := by
    have h := congrArg List.length hmap
    rw [List.length_map, List.length_append, List.length_replicate] at h
    exact h
  have hchars : (spelled ds).length = ds.length := List.length_map _
  constructor
  case spelled =>
    refine ⟨spelled ds, by rw [hex, hspelled], ?_, by omega, ?_⟩
    · intro c hc
      obtain ⟨d, -, rfl⟩ := List.mem_map.1 hc
      exact mem_hexDigits d
    · intro hlong hhead
      have hfirst := head_spelled hhead
      have hfilled : places - (digits 16 n).length = 0 := by omega
      rw [hmap, hfilled, List.replicate_zero, List.nil_append] at hfirst
      by_cases hn : n = 0
      · rw [hn, digits_of_lt (by decide), List.length_singleton] at hlength hfilled
        omega
      · exact head_digits hn hfirst
  case value =>
    have hlist : (hex places n).toList = '0' :: 'x' :: spelled ds := by
      simp only [hex, hspelled, String.toList_append, String.toList_ofList]
      rfl
    rw [ofHex?, hlist]
    simp only [mapM_spelled, Option.map_some, hvalue]

theorem Hexadecimal.noBlank {places n : Nat} {text : String} (h : Hexadecimal places n text) :
    ' ' ∉ text.toList := by
  obtain ⟨cs, rfl, hdigits, -⟩ := h.spelled
  have hcs : ' ' ∉ cs := fun hblank => absurd (hdigits ' ' hblank) (by decide)
  simpa using hcs

theorem noBlank_decimal (n : Nat) : ' ' ∉ (decimal n).toList := by
  obtain ⟨d, ds, hspelled, -⟩ := exists_numeral n
  rw [decimal, String.toList_ofList, hspelled]
  intro hblank
  obtain ⟨e, -, he⟩ := List.mem_map.1 hblank
  exact (by decide : ∀ e : Fin 10, digitChar e ≠ ' ') e he

end Numeral

open Numeral

/-- The words of the text for a fault, between blanks. -/
inductive Fault.Words : Fault → List String → Prop
  | unsupportedCall {opcode pc : UInt16} {o p : String} (ho : Hexadecimal 4 opcode.toNat o)
      (hp : Hexadecimal 3 pc.toNat p) :
      Words (.unsupportedCall opcode pc)
        ["unsupported", "machine", "code", "call", o, "at", "pc", p]
  | unknownOpcode {opcode pc : UInt16} {o p : String} (ho : Hexadecimal 4 opcode.toNat o)
      (hp : Hexadecimal 3 pc.toNat p) :
      Words (.unknownOpcode opcode pc) ["unknown", "opcode", o, "at", "pc", p]
  | addressOutOfBounds {address : Nat} {a : String} (ha : Hexadecimal 4 address a) :
      Words (.addressOutOfBounds address)
        ["memory", "access", "out", "of", "bounds", "at", "address", a]
  | programTooLarge (size limit : Nat) :
      Words (.programTooLarge size limit)
        ["program", "is", "too", "large", "(" ++ decimal size, "bytes),", "max", "size", "is",
          decimal limit, "bytes"]
  | stackOverflow {pc : UInt16} {p : String} (hp : Hexadecimal 3 pc.toNat p) :
      Words (.stackOverflow pc)
        ["stack", "overflow:", "subroutine", "call", "at", "pc", p, "with", "a", "full", "call",
          "stack"]
  | stackUnderflow {pc : UInt16} {p : String} (hp : Hexadecimal 3 pc.toNat p) :
      Words (.stackUnderflow pc)
        ["stack", "underflow:", "return", "at", "pc", p, "with", "an", "empty", "call", "stack"]
  | halted :
      Words .halted ["interpreter", "halted", "after", "a", "previous", "fatal", "error"]

theorem hexadecimal_opcodeText (opcode : UInt16) :
    Hexadecimal 4 opcode.toNat (opcodeText opcode) := hexadecimal_hex (by decide) _

theorem hexadecimal_counterText (pc : UInt16) : Hexadecimal 3 pc.toNat (counterText pc) :=
  hexadecimal_hex (by decide) _

namespace Fault

variable {f g : Fault} {ws vs : List String}

/-- The first words tell the kind of a fault, and the numerals tell the rest. -/
theorem Words.unique (h : f.Words ws) (h' : g.Words ws) : f = g := by
  generalize hws : ws = vs at h'
  cases h with
  | unsupportedCall ho hp =>
    cases h' with
    | unsupportedCall ho' hp' =>
      obtain ⟨rfl, rfl⟩ := by simpa using hws
      rw [UInt16.toNat_inj.1 (ho.unique ho'), UInt16.toNat_inj.1 (hp.unique hp')]
    | _ => simp at hws
  | unknownOpcode ho hp =>
    cases h' with
    | unknownOpcode ho' hp' =>
      obtain ⟨rfl, rfl⟩ := by simpa using hws
      rw [UInt16.toNat_inj.1 (ho.unique ho'), UInt16.toNat_inj.1 (hp.unique hp')]
    | _ => simp at hws
  | addressOutOfBounds ha =>
    cases h' with
    | addressOutOfBounds ha' =>
      obtain rfl := by simpa using hws
      rw [ha.unique ha']
    | _ => simp at hws
  | programTooLarge size limit =>
    cases h' with
    | programTooLarge size' limit' =>
      obtain ⟨hsize, hlimit⟩ := by simpa using hws
      rw [decimal_inj.1 hsize, decimal_inj.1 hlimit]
    | _ => simp at hws
  | stackOverflow hp =>
    cases h' with
    | stackOverflow hp' =>
      obtain rfl := by simpa using hws
      rw [UInt16.toNat_inj.1 (hp.unique hp')]
    | _ => simp at hws
  | stackUnderflow hp =>
    cases h' with
    | stackUnderflow hp' =>
      obtain rfl := by simpa using hws
      rw [UInt16.toNat_inj.1 (hp.unique hp')]
    | _ => simp at hws
  | halted =>
    cases h' with
    | halted => rfl
    | _ => simp at hws

theorem words_message (f : Fault) : ∃ ws, f.Words ws ∧ f.message = " ".intercalate ws := by
  cases f with
  | unsupportedCall opcode pc =>
    refine ⟨_, .unsupportedCall (hexadecimal_opcodeText opcode) (hexadecimal_counterText pc), ?_⟩
    show "unsupported machine code call " ++ opcodeText opcode ++ " at pc " ++ counterText pc = _
    apply String.toList_inj.1
    simp
  | unknownOpcode opcode pc =>
    refine ⟨_, .unknownOpcode (hexadecimal_opcodeText opcode) (hexadecimal_counterText pc), ?_⟩
    show "unknown opcode " ++ opcodeText opcode ++ " at pc " ++ counterText pc = _
    apply String.toList_inj.1
    simp
  | addressOutOfBounds address =>
    refine ⟨_, .addressOutOfBounds (hexadecimal_hex (by decide) address), ?_⟩
    show "memory access out of bounds at address " ++ hex 4 address = _
    apply String.toList_inj.1
    simp
  | programTooLarge size limit =>
    refine ⟨_, .programTooLarge size limit, ?_⟩
    show "program is too large (" ++ decimal size ++ " bytes), max size is " ++ decimal limit ++
      " bytes" = _
    apply String.toList_inj.1
    simp
  | stackOverflow pc =>
    refine ⟨_, .stackOverflow (hexadecimal_counterText pc), ?_⟩
    show "stack overflow: subroutine call at pc " ++ counterText pc ++ " with a full call stack" = _
    apply String.toList_inj.1
    simp
  | stackUnderflow pc =>
    refine ⟨_, .stackUnderflow (hexadecimal_counterText pc), ?_⟩
    show "stack underflow: return at pc " ++ counterText pc ++ " with an empty call stack" = _
    apply String.toList_inj.1
    simp
  | halted => exact ⟨_, .halted, rfl⟩

theorem Words.noBlank (h : f.Words ws) : ∀ w ∈ ws, ' ' ∉ w.toList := by
  cases h with
  | unsupportedCall ho hp | unknownOpcode ho hp => simp [ho.noBlank, hp.noBlank]
  | addressOutOfBounds ha => simp [ha.noBlank]
  | programTooLarge size limit => simp [noBlank_decimal]
  | stackOverflow hp | stackUnderflow hp => simp [hp.noBlank]
  | halted => simp

theorem Words.ne_nil (h : f.Words ws) : ws ≠ [] := by
  cases h <;> exact List.cons_ne_nil _ _

/-- The words are what lies between the blanks of the text. -/
theorem Words.splitOn (h : f.Words ws) :
    (" ".intercalate ws).toList.splitOn ' ' = ws.map String.toList := by
  rw [String.toList_intercalate]
  apply List.splitOn_intercalate
  · intro w hw
    obtain ⟨v, hv, rfl⟩ := List.mem_map.1 hw
    exact h.noBlank v hv
  · exact fun hnil => h.ne_nil (List.map_eq_nil_iff.1 hnil)

theorem Words.eq_of_intercalate (h : f.Words ws) (h' : g.Words vs)
    (hsame : " ".intercalate ws = " ".intercalate vs) : ws = vs := by
  have hsplit : ws.map String.toList = vs.map String.toList := by
    rw [← h.splitOn, ← h'.splitOn, hsame]
  exact (List.map_inj_right fun _ _ => String.toList_inj.1).1 hsplit

/-- The text for a fault tells which fault it is, with every number in it. Hexadecimal numbers are
filled up with zeros, are written in full where they are longer, and can be read back. -/
theorem texts_tell_faults (f : Fault) :
    (∀ g : Fault, f.message = g.message ↔ f = g) ∧
      ∃ ws, f.Words ws ∧ f.message = " ".intercalate ws ∧ ∀ g : Fault, g.Words ws → g = f := by
  obtain ⟨ws, hws, hf⟩ := f.words_message
  refine ⟨?_, ws, hws, hf, fun g hg => hg.unique hws⟩
  intro g
  constructor
  · intro hsame
    obtain ⟨vs, hvs, hg⟩ := g.words_message
    have hwords : ws = vs := hws.eq_of_intercalate hvs (by rw [← hf, ← hg, hsame])
    subst hwords
    exact hws.unique hvs
  · rintro rfl
    rfl

/-- A numeral that needs more than its four places. -/
example : (Fault.addressOutOfBounds 0x12345).message =
    "memory access out of bounds at address 0x12345" := by decide +kernel

end Fault

end ChipEight
