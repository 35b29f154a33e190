import ChipEight.Instruction.Nibble
import ChipEight.Numeral
import ChipEight.Proofs.Diagnosis

namespace ChipEight

open Numeral

def Alu.pattern : Alu → String
  | .copy => "8XY0"
  | .or => "8XY1"
  | .and => "8XY2"
  | .xor => "8XY3"
  | .add => "8XY4"
  | .sub => "8XY5"
  | .shiftRight => "8XY6"
  | .subFrom => "8XY7"
  | .shiftLeft => "8XYE"

def Condition.pattern : Condition → String
  | .equalsByte .. => "3XKK"
  | .differsFromByte .. => "4XKK"
  | .equal .. => "5XY0"
  | .differ .. => "9XY0"
  | .keyDown _ => "EX9E"
  | .keyUp _ => "EXA1"

def Condition.operands : Condition → List (Char × Nat)
  | .equalsByte x byte | .differsFromByte x byte => [('X', x), ('K', byte.toNat)]
  | .equal x y | .differ x y => [('X', x), ('Y', y)]
  | .keyDown x | .keyUp x => [('X', x)]

namespace Instruction

/-- The row of the opcode table that an instruction is in. Hexadecimal digits stand for themselves
and the other letters for operands. -/
def pattern : Instruction → String
  | .machineCode _ => "0NNN"
  | .clearScreen => "00E0"
  | .ret => "00EE"
  | .jump _ => "1NNN"
  | .call _ => "2NNN"
  | .skipIf test => test.pattern
  | .load .. => "6XKK"
  | .increment .. => "7XKK"
  | .combine op _ _ => op.pattern
  | .setIndex _ => "ANNN"
  | .jumpFrom _ => "BNNN"
  | .random .. => "CXKK"
  | .draw .. => "DXYN"
  | .readDelay _ => "FX07"
  | .awaitKey _ => "FX0A"
  | .setDelay _ => "FX15"
  | .setSound _ => "FX18"
  | .addIndex _ => "FX1E"
  | .pointGlyph _ => "FX29"
  | .storeDecimal _ => "FX33"
  | .dump _ => "FX55"
  | .restore _ => "FX65"

/-- What the letters of its row stand for. -/
def operands : Instruction → List (Char × Nat)
  | .machineCode target | .jump target | .call target | .setIndex target | .jumpFrom target =>
    [('N', target)]
  | .clearScreen | .ret => []
  | .skipIf test => test.operands
  | .load x byte | .increment x byte | .random x byte => [('X', x), ('K', byte.toNat)]
  | .combine _ x y => [('X', x), ('Y', y)]
  | .draw x y height => [('X', x), ('Y', y), ('N', height)]
  | .readDelay x | .awaitKey x | .setDelay x | .setSound x | .addIndex x | .pointGlyph x
  | .storeDecimal x | .dump x | .restore x => [('X', x)]

/-- The digits of a word below the characters of a pattern. -/
def places (pattern : String) (w : UInt16) : List (Char × Nat) :=
  pattern.toList.zip
    [w.toNat / 4096, w.toNat / 256 % 16, w.toNat / 16 % 16, w.toNat % 16]

/-- The digit may stand in the place of a character. Only hexadecimal digits fix theirs. -/
def Fits (c : Char) (digit : Nat) : Prop := ∀ d ∈ hexDigit? c, digit = d

/-- The word has the digits that the pattern fixes. -/
def Matches (pattern : String) (w : UInt16) : Prop :=
  ∀ place ∈ places pattern w, Fits place.1 place.2

/-- The number that the word has in the places of a letter. -/
def field (pattern : String) (letter : Char) (w : UInt16) : Nat :=
  ofDigits 16 (((places pattern w).filter (·.1 == letter)).map (·.2))

/-- The word is in the row of the instruction, with the operands of the instruction. -/
def Spells (i : Instruction) (w : UInt16) : Prop :=
  Matches i.pattern w ∧ ∀ operand ∈ i.operands, field i.pattern operand.1 w = operand.2

variable {row : String} {first second third last : Char} {f s t l : Fin 16} {i : Instruction}
  {w : UInt16}

theorem fits_digit (h : hexDigit? first = some f) {n : Nat} : Fits first n ↔ n = f := by
  simp [Fits, h]

theorem fits_letter (letter : Char) (h : hexDigit? letter = none) {n : Nat} :
    Fits letter n ↔ True := by
  simp [Fits, h]

theorem digit_ne_letter (letter : Char) (hl : hexDigit? letter = none)
    (hf : hexDigit? first = some f) : first ≠ letter := by
  intro h
  rw [h, hl] at hf
  cases hf

theorem matches_iff (hrow : row = String.ofList [first, second, third, last]) :
    Matches row w ↔ Fits first (w.toNat / 4096) ∧ Fits second (w.toNat / 256 % 16) ∧
      Fits third (w.toNat / 16 % 16) ∧ Fits last (w.toNat % 16) := by
  simp [Matches, places, hrow]

-- One lemma for each shape of a row: the words that match it, and where its operands are in them.

theorem target_row (hrow : row = String.ofList [first, 'N', 'N', 'N'])
    (hf : hexDigit? first = some f) :
    (Matches row w ↔ w.toNat / 4096 = f) ∧ field row 'N' w = w.toNat % 4096 := by
  have hN := digit_ne_letter 'N' rfl hf
  constructor
  · simp only [matches_iff hrow, fits_digit hf, fits_letter 'N' rfl, and_true]
  · simp [field, places, hrow, hN, ofDigits]
    omega

theorem byte_row (hrow : row = String.ofList [first, 'X', 'K', 'K'])
    (hf : hexDigit? first = some f) :
    (Matches row w ↔ w.toNat / 4096 = f) ∧ field row 'X' w = w.toNat / 256 % 16 ∧
      field row 'K' w = w.toNat % 256 := by
  have hX := digit_ne_letter 'X' rfl hf
  have hK := digit_ne_letter 'K' rfl hf
  refine ⟨?_, ?_, ?_⟩
  · simp only [matches_iff hrow, fits_digit hf, fits_letter 'X' rfl, fits_letter 'K' rfl, and_true]
  · simp [field, places, hrow, hX, ofDigits]
  · simp [field, places, hrow, hK, ofDigits]
    omega

theorem pair_row (hrow : row = String.ofList [first, 'X', 'Y', last])
    (hf : hexDigit? first = some f) (hl : hexDigit? last = some l) :
    (Matches row w ↔ w.toNat / 4096 = f ∧ w.toNat % 16 = l) ∧
      field row 'X' w = w.toNat / 256 % 16 ∧ field row 'Y' w = w.toNat / 16 % 16 := by
  have hX := digit_ne_letter 'X' rfl hf
  have hY := digit_ne_letter 'Y' rfl hf
  have hX' := digit_ne_letter 'X' rfl hl
  have hY' := digit_ne_letter 'Y' rfl hl
  refine ⟨?_, ?_, ?_⟩
  · simp only [matches_iff hrow, fits_digit hf, fits_digit hl, fits_letter 'X' rfl,
      fits_letter 'Y' rfl, true_and]
  · simp [field, places, hrow, hX, hX', ofDigits]
  · simp [field, places, hrow, hY, hY', ofDigits]

theorem draw_row (hrow : row = String.ofList [first, 'X', 'Y', 'N'])
    (hf : hexDigit? first = some f) :
    (Matches row w ↔ w.toNat / 4096 = f) ∧ field row 'X' w = w.toNat / 256 % 16 ∧
      field row 'Y' w = w.toNat / 16 % 16 ∧ field row 'N' w = w.toNat % 16 := by
  have hX := digit_ne_letter 'X' rfl hf
  have hY := digit_ne_letter 'Y' rfl hf
  have hN := digit_ne_letter 'N' rfl hf
  refine ⟨?_, ?_, ?_, ?_⟩
  · simp only [matches_iff hrow, fits_digit hf, fits_letter 'X' rfl, fits_letter 'Y' rfl,
      fits_letter 'N' rfl, and_true]
  · simp [field, places, hrow, hX, ofDigits]
  · simp [field, places, hrow, hY, ofDigits]
  · simp [field, places, hrow, hN, ofDigits]

theorem register_row (hrow : row = String.ofList [first, 'X', third, last])
    (hf : hexDigit? first = some f) (ht : hexDigit? third = some t)
    (hl : hexDigit? last = some l) :
    (Matches row w ↔ w.toNat / 4096 = f ∧ w.toNat % 256 = t * 16 + l) ∧
      field row 'X' w = w.toNat / 256 % 16 := by
  have hX := digit_ne_letter 'X' rfl hf
  have hX' := digit_ne_letter 'X' rfl ht
  have hX'' := digit_ne_letter 'X' rfl hl
  constructor
  · simp only [matches_iff hrow, fits_digit hf, fits_digit ht, fits_digit hl, fits_letter 'X' rfl,
      true_and]
    omega
  · simp [field, places, hrow, hX, hX', hX'', ofDigits]

theorem word_eq_iff {family rest : Nat} (hf : family < 16) (hr : rest < 4096) :
    word family rest = w ↔ w.toNat / 4096 = family ∧ w.toNat % 4096 = rest := by
  constructor
  · intro h
    rw [← h]
    exact word_fields hf hr
  · intro h
    exact word_of_fields h.1 h.2

theorem spells_target {target : Address} (hrow : i.pattern = String.ofList [first, 'N', 'N', 'N'])
    (hf : hexDigit? first = some f) (ho : i.operands = [('N', target.val)])
    (he : encode i = word f target) : i.Spells w ↔ encode i = w := by
  obtain ⟨hm, hN⟩ := target_row (w := w) hrow hf
  rw [he, word_eq_iff f.isLt target.isLt, Spells, hm, ho, List.forall_mem_singleton, hN]

theorem spells_byte {x : Register} {byte : UInt8}
    (hrow : i.pattern = String.ofList [first, 'X', 'K', 'K']) (hf : hexDigit? first = some f)
    (ho : i.operands = [('X', x.val), ('K', byte.toNat)])
    (he : encode i = word f (x * 256 + byte.toNat)) : i.Spells w ↔ encode i = w := by
  have hx := x.isLt
  have hb := byte.toNat_lt
  obtain ⟨hm, hX, hK⟩ := byte_row (w := w) hrow hf
  rw [he, word_eq_iff f.isLt (by omega), Spells, hm, ho, List.forall_mem_cons, hX,
    List.forall_mem_singleton, hK]
  simp only
  omega

theorem spells_pair {x y : Register} {rest : Nat}
    (hrow : i.pattern = String.ofList [first, 'X', 'Y', last]) (hf : hexDigit? first = some f)
    (hl : hexDigit? last = some l) (ho : i.operands = [('X', x.val), ('Y', y.val)])
    (he : encode i = word f rest) (hrest : rest = x * 256 + y * 16 + l) :
    i.Spells w ↔ encode i = w := by
  have hx := x.isLt
  have hy := y.isLt
  have hlast := l.isLt
  obtain ⟨hm, hX, hY⟩ := pair_row (w := w) hrow hf hl
  rw [he, word_eq_iff f.isLt (by omega), Spells, hm, ho, List.forall_mem_cons, hX,
    List.forall_mem_singleton, hY]
  simp only
  omega

theorem spells_register {x : Register}
    (hrow : i.pattern = String.ofList [first, 'X', third, last]) (hf : hexDigit? first = some f)
    (ht : hexDigit? third = some t) (hl : hexDigit? last = some l)
    (ho : i.operands = [('X', x.val)]) (he : encode i = word f (x * 256 + (t * 16 + l))) :
    i.Spells w ↔ encode i = w := by
  have hx := x.isLt
  have hthird := t.isLt
  have hlast := l.isLt
  obtain ⟨hm, hX⟩ := register_row (w := w) hrow hf ht hl
  rw [he, word_eq_iff f.isLt (by omega), Spells, hm, ho, List.forall_mem_singleton, hX]
  simp only
  omega

theorem spells_draw {x y : Register} {height : Fin 16} :
    (draw x y height).Spells w ↔ encode (.draw x y height) = w := by
  have hx := x.isLt
  have hy := y.isLt
  have hh := height.isLt
  obtain ⟨hm, hX, hY, hN⟩ := draw_row (w := w) (f := 0xD)
    (show (draw x y height).pattern = String.ofList ['D', 'X', 'Y', 'N'] from rfl) rfl
  rw [encode, word_eq_iff (by omega) (by omega), Spells, hm, operands, List.forall_mem_cons, hX,
    List.forall_mem_cons, hY, List.forall_mem_singleton, hN]
  simp only
  omega

theorem spells_fixed (hrow : i.pattern = String.ofList [first, second, third, last])
    (hf : hexDigit? first = some f) (hs : hexDigit? second = some s)
    (ht : hexDigit? third = some t) (hl : hexDigit? last = some l)
    (ho : i.operands = []) (he : (encode i).toNat = ((f * 16 + s) * 16 + t) * 16 + l) :
    i.Spells w ↔ encode i = w := by
  have hw := w.toNat_lt
  have hsecond := s.isLt
  have hthird := t.isLt
  have hlast := l.isLt
  rw [Spells, ho, matches_iff hrow, fits_digit hf, fits_digit hs, fits_digit ht, fits_digit hl,
    ← UInt16.toNat_inj, he]
  simp only [List.not_mem_nil, false_imp_iff, implies_true, and_true]
  omega

theorem spells_combine {op : Alu} {x y : Register} :
    (combine op x y).Spells w ↔ encode (.combine op x y) = w := by
  cases op <;> exact spells_pair rfl rfl rfl rfl rfl rfl

theorem spells_skipIf {test : Condition} :
    (skipIf test).Spells w ↔ encode (.skipIf test) = w := by
  cases test with
  | equalsByte | differsFromByte => exact spells_byte rfl rfl rfl rfl
  | equal | differ => exact spells_pair rfl rfl rfl rfl rfl (Nat.add_zero _).symm
  | keyDown | keyUp => exact spells_register rfl rfl rfl rfl rfl rfl

/-- The encoder writes the opcode table. -/
theorem spells_iff : i.Spells w ↔ encode i = w := by
  cases i with
  | clearScreen | ret => exact spells_fixed rfl rfl rfl rfl rfl rfl rfl
  | machineCode | jump | call | setIndex | jumpFrom => exact spells_target rfl rfl rfl rfl
  | load | increment | random => exact spells_byte rfl rfl rfl rfl
  | skipIf => exact spells_skipIf
  | combine => exact spells_combine
  | draw => exact spells_draw
  | _ => exact spells_register rfl rfl rfl rfl rfl rfl

-- What the decoder knows, by the part of a word that it goes by.

theorem decode_of_family {family : Nat} (hf : w.toNat / 4096 = family)
    (known : family ∈ [0x0, 0x1, 0x2, 0x3, 0x4, 0x6, 0x7, 0xA, 0xB, 0xC, 0xD]) :
    decode w ≠ none := by
  simp only [List.mem_cons, List.not_mem_nil, or_false] at known
  intro h
  rcases known with rfl | rfl | rfl | rfl | rfl | rfl | rfl | rfl | rfl | rfl | rfl <;>
    simp only [decode, hf, reduceCtorEq] at h
  split at h
  · cases h
  · split at h <;> cases h

theorem decode_of_last {family last : Nat} (hf : w.toNat / 4096 = family)
    (hl : w.toNat % 16 = last)
    (known : family ∈ [0x5, 0x9] ∧ last = 0 ∨ family = 0x8 ∧ Alu.ofCode? last ≠ none) :
    decode w ≠ none := by
  simp only [List.mem_cons, List.not_mem_nil, or_false] at known
  rcases known with ⟨rfl | rfl, rfl⟩ | ⟨rfl, known⟩
  · simp [decode, hf, hl]
  · simp [decode, hf, hl]
  · simpa [decode, hf, hl] using known

theorem decode_of_low {family low : Nat} (hf : w.toNat / 4096 = family)
    (hl : w.toNat % 256 = low)
    (known : family = 0xE ∧ low ∈ [0x9E, 0xA1] ∨
      family = 0xF ∧ low ∈ [0x07, 0x0A, 0x15, 0x18, 0x1E, 0x29, 0x33, 0x55, 0x65]) :
    decode w ≠ none := by
  simp only [List.mem_cons, List.not_mem_nil, or_false] at known
  rcases known with ⟨rfl, rfl | rfl⟩ |
      ⟨rfl, rfl | rfl | rfl | rfl | rfl | rfl | rfl | rfl | rfl⟩ <;>
    simp [decode, hf, hl]

theorem decode_of_matches (h : Matches i.pattern w) : decode w ≠ none := by
  cases i with
  | clearScreen | ret =>
    exact decode_of_family ((fits_digit rfl).1 ((matches_iff rfl).1 h).1) (by decide)
  | machineCode | jump | call | setIndex | jumpFrom =>
    exact decode_of_family ((target_row rfl rfl).1.1 h) (by decide)
  | load | increment | random => exact decode_of_family ((byte_row rfl rfl).1.1 h) (by decide)
  | draw => exact decode_of_family ((draw_row rfl rfl).1.1 h) (by decide)
  | combine op =>
    cases op <;>
    · obtain ⟨hf, hl⟩ := (pair_row rfl rfl rfl).1.1 h
      exact decode_of_last hf hl (by decide)
  | skipIf test =>
    cases test with
    | equalsByte | differsFromByte =>
      exact decode_of_family ((byte_row rfl rfl).1.1 h) (by decide)
    | equal | differ =>
      obtain ⟨hf, hl⟩ := (pair_row rfl rfl rfl).1.1 h
      exact decode_of_last hf hl (by decide)
    | keyDown | keyUp =>
      obtain ⟨hf, hl⟩ := (register_row rfl rfl rfl rfl).1.1 h
      exact decode_of_low hf hl (by decide)
  | _ =>
    obtain ⟨hf, hl⟩ := (register_row rfl rfl rfl rfl).1.1 h
    exact decode_of_low hf hl (by decide)

theorem decode_eq_none_iff : decode w = none ↔ ∀ i : Instruction, ¬ Matches i.pattern w := by
  constructor
  · intro hd i h
    exact decode_of_matches h hd
  · intro h
    cases hd : decode w with
    | none => rfl
    | some i => exact absurd (spells_iff.2 (encode_of_decode hd)).1 (h i)

theorem proper_of_decode (h : decode w = some i) : i.Proper := by
  cases i with
  | machineCode target =>
    obtain ⟨-, hclear, hret⟩ := callsNative_iff.2 ⟨target, h⟩
    have hw := target_of_decode h
    constructor
    · intro ht
      exact hclear (by rw [← hw, ht]; rfl)
    · intro ht
      exact hret (by rw [← hw, ht]; rfl)
  | _ => trivial

theorem decode_zero_family (h : w.toNat < 0x1000) :
    decode w = some (.machineCode ⟨w.toNat, h⟩) ↔ w ≠ 0x00E0 ∧ w ≠ 0x00EE := by
  constructor
  · intro hd
    exact (callsNative_iff.2 ⟨_, hd⟩).2
  · intro hne
    obtain ⟨target, hd⟩ := callsNative_iff.1 ⟨h, hne⟩
    have ht : target = ⟨w.toNat, h⟩ := by
      have hlt := target.isLt
      have hw := congrArg UInt16.toNat (target_of_decode hd)
      apply Fin.ext
      show target.val = w.toNat
      simp at hw
      omega
    rw [hd, ht]

end Instruction

/-- Decoding and encoding undo each other, and between them they are the opcode table. -/
theorem Instruction.decode_inverse :
    (∀ w i, decode w = some i → i.Proper ∧ encode i = w) ∧
    (∀ i, i.Proper → decode (encode i) = some i) ∧
    (∀ i w, encode i = w ↔ i.Spells w) ∧
    (∀ v w i, decode v = some i → decode w = some i → v = w) ∧
    (∀ w, decode w = none ↔ ∀ i : Instruction, ¬ Matches i.pattern w) ∧
    (∀ w (h : w.toNat < 0x1000),
      decode w = some (.machineCode ⟨w.toNat, h⟩) ↔ w ≠ 0x00E0 ∧ w ≠ 0x00EE) ∧
    decode 0x00E0 = some .clearScreen ∧ decode 0x00EE = some .ret ∧
    ∀ w,
      (Nibble.address (Nibble.ofWord w 8) (Nibble.ofWord w 4) (Nibble.ofWord w 0)).toNat =
        w.toNat % 4096 ∧
      (Nibble.byte (Nibble.ofWord w 4) (Nibble.ofWord w 0)).toNat = w.toNat % 256 := by
  refine ⟨?_, ?_, ?_, ?_, ?_, ?_, rfl, rfl, Nibble.join_ofWord⟩
  · intro w i h
    exact ⟨proper_of_decode h, encode_of_decode h⟩
  · intro i h
    exact decode_encode h
  · intro i w
    exact spells_iff.symm
  · intro v w i hv hw
    rw [← encode_of_decode hv, encode_of_decode hw]
  · intro w
    exact decode_eq_none_iff
  · intro w h
    exact decode_zero_family h

/-- The comparison of two registers fixes its last digit. -/
theorem no_row_of_undecoded :
    Instruction.decode 0x5121 = none ∧ ∀ i : Instruction, ¬ Instruction.Matches i.pattern 0x5121 :=
  ⟨rfl, (Instruction.decode_inverse.2.2.2.2.1 0x5121).1 rfl⟩

end ChipEight
