import ChipEight.Proofs.Attempts
import ChipEight.Proofs.Counts
import ChipEight.Proofs.Glyphs

namespace ChipEight

namespace Machine

/-- The machine that runs a program when nothing has been executed yet. -/
def boot (program : List UInt8) (entropy : Random.CipherKey) : Machine where
  cpu := .start {} entropy none
  memory := .holding program
  display := .blank

/-- Frames of nine cycles and a tick. -/
def schedule (frames : Nat) : List Operation :=
  (List.replicate frames (List.replicate 9 .cycle ++ [.tick])).flatten

theorem schedule_succ (frames : Nat) :
    schedule (frames + 1) = List.replicate 9 .cycle ++ [.tick] ++ schedule frames := by
  rw [schedule, List.replicate_succ, List.flatten_cons]
  rfl

theorem mem_schedule {op : Operation} {frames : Nat} (h : op ∈ schedule frames) :
    op = .cycle ∨ op = .tick := by
  obtain ⟨round, hround, hop⟩ := List.mem_flatten.1 h
  rw [List.eq_of_mem_replicate hround] at hop
  rcases List.mem_append.1 hop with hop | hop
  · exact .inl (List.eq_of_mem_replicate hop)
  · exact .inr (List.mem_singleton.1 hop)

theorem keypad_after (ops : List Operation) (h : ∀ op ∈ ops, op = .cycle ∨ op = .tick)
    (m : Machine) : (m.after ops).cpu.keypad = m.cpu.keypad := by
  induction ops generalizing m with
  | nil => rfl
  | cons op ops ih =>
    have hfirst : (m.perform op).cpu.keypad = m.cpu.keypad := by
      rcases h op List.mem_cons_self with hop | hop
      · rw [hop]
        exact keypad_cycle m
      · rw [hop]
        rfl
    exact (ih (fun op hop => h op (List.mem_cons_of_mem _ hop)) (m.perform op)).trans hfirst

end Machine

namespace CommandLine

theorem runFrames_eq {s : Session} (live : s.halted = false) (n : Nat) :
    runFrames n s =
      (s.machine.attempt (Machine.schedule n)).map fun m => { s with machine := m } := by
  induction n generalizing s with
  | zero => rfl
  | succ n ih =>
    rw [Machine.schedule_succ, Machine.attempt_append, runFrames]
    rcases Session.frame_attempt live 9 with ⟨m, redraw, hm, hresult, hstate⟩ | ⟨fault, hm, hresult⟩
    · simp only [Session.cyclesPerFrame, hresult, hstate, hm]
      exact ih live
    · simp only [Session.cyclesPerFrame, hresult, hm]
      rfl

/-- Lines that show a display with a character for each pixel. -/
structure Depicts (lines : List String) (d : Display) : Prop where
  height : lines.length = 32
  width : ∀ line ∈ lines, line.length = 64
  pixels : ∀ (x : Column) (y : Row),
    lines[y.val]?.bind (·.toList[x.val]?) = some (if d.pixel x y then '#' else '.')

theorem depicts_lines (d : Display) : Depicts d.lines d where
  height := by simp [Display.lines]
  width := by simp [Display.lines]
  pixels x y := by simp [Display.lines]

theorem Depicts.getElem {lines : List String} {d : Display} (h : Depicts lines d) {x y : Nat}
    (hx : x < 64) (hy : y < 32) :
    ∃ line, lines[y]? = some line ∧ line.toList.length = 64 ∧
      line.toList[x]? = some (if d.pixel ⟨x, hx⟩ ⟨y, hy⟩ then '#' else '.') := by
  obtain ⟨line, hline, hchar⟩ := Option.bind_eq_some_iff.1 (h.pixels ⟨x, hx⟩ ⟨y, hy⟩)
  refine ⟨line, hline, ?_, hchar⟩
  rw [String.length_toList]
  exact h.width line (List.mem_of_getElem? hline)

/-- A display has one picture. -/
theorem Depicts.eq {lines lines' : List String} {d : Display} (h : Depicts lines d)
    (h' : Depicts lines' d) : lines = lines' := by
  refine List.ext_getElem? fun y => ?_
  rcases Nat.lt_or_ge y 32 with hy | hy
  · obtain ⟨line, hline, hlength, -⟩ := h.getElem (show 0 < 64 by decide) hy
    obtain ⟨line', hline', hlength', -⟩ := h'.getElem (show 0 < 64 by decide) hy
    rw [hline, hline']
    refine congrArg some (String.toList_inj.1 (List.ext_getElem? fun x => ?_))
    rcases Nat.lt_or_ge x 64 with hx | hx
    · obtain ⟨_, hsame, -, hchar⟩ := h.getElem hx hy
      obtain ⟨_, hsame', -, hchar'⟩ := h'.getElem hx hy
      cases hline.symm.trans hsame
      cases hline'.symm.trans hsame'
      rw [hchar, hchar']
    · rw [List.getElem?_eq_none (Nat.le_trans (Nat.le_of_eq hlength) hx),
        List.getElem?_eq_none (Nat.le_trans (Nat.le_of_eq hlength') hx)]
  · rw [List.getElem?_eq_none (Nat.le_trans (Nat.le_of_eq h.height) hy),
      List.getElem?_eq_none (Nat.le_trans (Nat.le_of_eq h'.height) hy)]

/-- What a caller of the program is left with. -/
structure Ending where
  code : UInt8
  lines : List String
  failure : Option Failure

def ending (answer : Except Failure (List String)) : Ending :=
  ⟨exitCode answer, output answer, failure? answer⟩

/-- Arguments that ask for a number of frames of a program. -/
inductive Asks : List String → String → Nat → Prop
  | default (rom : String) : Asks [rom] rom 600
  | counted {frames : String} {n : Nat} (rom : String) (more : List String)
    (count : Counts (unsigned frames.toList) (.ok n)) : Asks (rom :: frames :: more) rom n

/-- How the frames of a program end. -/
inductive Finishes (entropy : Random.CipherKey) (n : Nat) (program : List UInt8) : Ending → Prop
  | tooLarge (long : 3583 < program.length) :
    Finishes entropy n program ⟨1, [], some (.fault (.programTooLarge program.length 3583))⟩
  | fault {fault : Fault} (fits : program.length ≤ 3583)
    (first : (Machine.boot program entropy).FirstFault (Machine.schedule n) fault) :
    Finishes entropy n program ⟨1, [], some (.fault fault)⟩
  | screen {lines : List String} (fits : program.length ≤ 3583)
    (clean : ¬ (Machine.boot program entropy).Faults (Machine.schedule n))
    (depicts : Depicts lines
      ((Machine.boot program entropy).after (Machine.schedule n)).display) :
    Finishes entropy n program ⟨0, lines, none⟩

/-- The ways in which a run can end. What is wrong with the arguments comes before what is wrong
with the file, and that before what is wrong with the program in it. -/
inductive Ends (contents : String → Except FileError (List UInt8)) (entropy : Random.CipherKey) :
    List String → Ending → Prop
  | usage : Ends contents entropy [] ⟨1, [], some .usage⟩
  | frames {frames : String} {error : CountError} (rom : String) (more : List String)
    (count : Counts (unsigned frames.toList) (.error error)) :
    Ends contents entropy (rom :: frames :: more) ⟨1, [], some (.frames error)⟩
  | file {args : List String} {rom : String} {n : Nat} {error : FileError}
    (asks : Asks args rom n) (unreadable : contents rom = .error error) :
    Ends contents entropy args ⟨1, [], some (.file error)⟩
  | program {args : List String} {rom : String} {n : Nat} {program : List UInt8} {e : Ending}
    (asks : Asks args rom n) (found : contents rom = .ok program)
    (finishes : Finishes entropy n program e) : Ends contents entropy args e

variable {contents : String → Except FileError (List UInt8)} {entropy : Random.CipherKey}
  {args : List String} {rom : String} {n : Nat} {program : List UInt8}

theorem screenAfter_of_fits (fits : program.length ≤ 3583) :
    screenAfter program n entropy =
      ((Machine.boot program entropy).attempt (Machine.schedule n)).map (·.display) := by
  have hlaunch : Session.launch program {} entropy none =
      .done ⟨Machine.boot program entropy, false, none⟩ () := by
    simp only [Session.launch, Session.load, Session.start, Memory.load_of_fits fits]
    rfl
  have hrun := runFrames_eq (s := ⟨Machine.boot program entropy, false, none⟩) rfl n
  rw [screenAfter, hlaunch]
  show (runFrames n ⟨Machine.boot program entropy, false, none⟩).bind _ = _
  rw [hrun]
  cases (Machine.boot program entropy).attempt (Machine.schedule n) <;> rfl

theorem screenAfter_of_fault (fits : program.length ≤ 3583) {fault : Fault}
    (first : (Machine.boot program entropy).FirstFault (Machine.schedule n) fault) :
    screenAfter program n entropy = .error fault := by
  rw [screenAfter_of_fits fits, Machine.attempt_eq_error.2 first]
  rfl

theorem screenAfter_of_clean (fits : program.length ≤ 3583)
    (clean : ¬ (Machine.boot program entropy).Faults (Machine.schedule n)) :
    screenAfter program n entropy =
      .ok ((Machine.boot program entropy).after (Machine.schedule n)).display := by
  rw [screenAfter_of_fits fits, Machine.attempt_eq_ok.2 ⟨clean, rfl⟩]
  rfl

theorem screenAfter_of_long (long : 3583 < program.length) :
    screenAfter program n entropy = .error (.programTooLarge program.length 3583) := by
  simp only [screenAfter, Session.launch, Session.load, Memory.load_of_not_fits long]
  rfl

theorem request_of_asks (asks : Asks args rom n) : request args = .ok (rom, n) := by
  cases asks with
  | default => rfl
  | counted _ more count =>
    rw [request, count?_eq_iff.2 count]
    rfl

theorem run_of_unreadable (asks : Asks args rom n) {error : FileError}
    (unreadable : contents rom = .error error) :
    run args contents entropy = .error (.file error) := by
  rw [run, request_of_asks asks]
  show ((contents rom).mapError Failure.file).bind _ = _
  rw [unreadable]
  rfl

theorem run_of_found (asks : Asks args rom n) (found : contents rom = .ok program) :
    run args contents entropy =
      ((screenAfter program n entropy).mapError .fault).map (·.lines) := by
  rw [run, request_of_asks asks]
  show ((contents rom).mapError Failure.file).bind _ = _
  rw [found]
  show ((screenAfter program n entropy).mapError Failure.fault).bind _ = _
  cases screenAfter program n entropy <;> rfl

theorem finishes_iff {e : Ending} : Finishes entropy n program e ↔
    ending (((screenAfter program n entropy).mapError .fault).map (·.lines)) = e := by
  constructor
  · intro h
    cases h with
    | tooLarge long =>
      rw [screenAfter_of_long long]
      rfl
    | fault fits first =>
      rw [screenAfter_of_fault fits first]
      rfl
    | screen fits clean depicts =>
      rw [screenAfter_of_clean fits clean, depicts.eq (depicts_lines _)]
      rfl
  · rintro rfl
    rcases Nat.lt_or_ge 3583 program.length with long | fits
    · rw [screenAfter_of_long long]
      exact .tooLarge long
    · cases h : (Machine.boot program entropy).attempt (Machine.schedule n) with
      | error fault =>
        have first := Machine.attempt_eq_error.1 h
        rw [screenAfter_of_fault fits first]
        exact .fault fits first
      | ok m =>
        have clean := (Machine.attempt_eq_ok.1 h).1
        rw [screenAfter_of_clean fits clean]
        exact .screen fits clean (depicts_lines _)

theorem ends_of_asks (asks : Asks args rom n) :
    Ends contents entropy args (ending (run args contents entropy)) := by
  cases found : contents rom with
  | error error =>
    rw [run_of_unreadable asks found]
    exact .file asks found
  | ok program =>
    rw [run_of_found asks found]
    exact .program asks found (finishes_iff.2 rfl)

/-- Every run ends in one of the ways. -/
theorem ends_ending (contents : String → Except FileError (List UInt8)) (entropy : Random.CipherKey)
    (args : List String) : Ends contents entropy args (ending (run args contents entropy)) := by
  match args with
  | [] => exact .usage
  | [rom] => exact ends_of_asks (.default rom)
  | rom :: frames :: more =>
    cases h : count? frames.toList with
    | ok n => exact ends_of_asks (.counted rom more (count?_eq_iff.1 h))
    | error error =>
      have hrun : run (rom :: frames :: more) contents entropy = .error (.frames error) := by
        simp only [run, request, h]
        rfl
      rw [hrun]
      exact .frames rom more (count?_eq_iff.1 h)

theorem ending_of_ends {e : Ending} (h : Ends contents entropy args e) :
    ending (run args contents entropy) = e := by
  cases h with
  | usage => rfl
  | frames rom more count =>
    simp only [run, request, count?_eq_iff.2 count]
    rfl
  | file asks unreadable =>
    rw [run_of_unreadable asks unreadable]
    rfl
  | program asks found finishes =>
    rw [run_of_found asks found]
    exact finishes_iff.1 finishes

/-- The command line from end to end. Whatever the arguments, the file and the random numbers, the
run ends as it should, and nothing ever presses a key. -/
theorem end_to_end (contents : String → Except FileError (List UInt8))
    (entropy : Random.CipherKey) :
    (∀ args e, ending (run args contents entropy) = e ↔ Ends contents entropy args e) ∧
    ∀ program n k, ((Machine.boot program entropy).after
      ((Machine.schedule n).take k)).cpu.keypad = .initial := by
  refine ⟨fun args e => ⟨?_, ending_of_ends⟩, fun program n k => ?_⟩
  · rintro rfl
    exact ends_ending contents entropy args
  · exact Machine.keypad_after _ (fun op hop => Machine.mem_schedule (List.mem_of_mem_take hop)) _

/-- A program that draws the digit zero and stays where it is, and one that returns from nowhere. -/
theorem endings_of_draw_and_return :
    let entropy : Random.CipherKey := Vector.replicate 8 0
    ending (run ["rom"] (fun _ => .ok [0xD0, 0x15, 0x12, 0x02]) entropy) =
        ⟨0, (Display.sprite 0 0 [0xF0, 0x90, 0x90, 0x90, 0xF0]).lines, none⟩ ∧
      ending (run ["rom", "7", "more"] (fun _ => .ok [0x00, 0xEE]) entropy) =
        ⟨1, [], some (.fault (.stackUnderflow 0x200))⟩ := by
  intro entropy
  have hschedule (n : Nat) : Machine.schedule (n + 1) =
      .cycle :: (List.replicate 8 .cycle ++ [.tick] ++ Machine.schedule n) :=
    Machine.schedule_succ n
  constructor
  · let m := Machine.boot [0xD0, 0x15, 0x12, 0x02] entropy
    let digit : Display := .sprite 0 0 [0xF0, 0x90, 0x90, 0x90, 0xF0]
    have hload : Memory.initial.load [0xD0, 0x15, 0x12, 0x02] = .ok m.memory :=
      Memory.load_of_fits (by decide)
    have hnext : m.next? = some (.draw (nibble 0) (nibble 1) (nibble 5)) :=
      Machine.next?_of_load hload 0 rfl rfl rfl rfl
    have hglyph : m.fetched.HasGlyph (nibble 0) := by
      intro k hk
      have hfont : k < Memory.font.length := Nat.lt_of_lt_of_le hk (by decide)
      show (Memory.holding _).get? (0 + k) = Memory.font[0 + k]?
      rw [Nat.zero_add, Memory.get?_holding _ (by unfold Memory.size; omega), if_neg (by omega),
        List.getD_eq_getElem?_getD, List.getElem?_eq_getElem hfont, Option.getD_some]
    obtain ⟨hok, hdisplay⟩ := Machine.draw_glyph (x := nibble 0) (y := nibble 1) rfl hglyph
    have hdigit : m.fetched.display ^^^ m.fetched.spriteMask (nibble 0) (nibble 1) (nibble 5) =
        digit := by
      rw [← Machine.display_draw, hdisplay]
      apply Display.ext_pixel
      intro px py
      rw [Display.pixel_xor]
      show (Display.blank.pixel px py ^^ digit.pixel px py) = _
      rw [Display.pixel_blank, Bool.false_xor]
    obtain ⟨hit, hdrawn⟩ : ∃ hit, m.cycle.state = ⟨m.fetched.cpu.setFlag hit, m.memory, digit⟩ := by
      rw [Machine.cycle_of_next? hnext, Outcome.state_map, Machine.state_draw hok, hdigit]
      exact ⟨_, rfl⟩
    let drawn : Machine := ⟨m.fetched.cpu.setFlag hit, m.memory, digit⟩
    have hresult : m.cycle.result = .ok (.draw (nibble 0) (nibble 1) (nibble 5)) := by
      rw [Machine.cycle_of_next? hnext]
      exact Outcome.result_map_eq_ok.2 ⟨(), hok, rfl⟩
    have hstay : drawn.next? = some (.jump (Fin.ofNat 4096 0x1202)) :=
      Machine.next?_of_load (m := drawn) hload 2 rfl rfl rfl rfl
    have hhere : drawn.cpu.pc = 0x202 := rfl
    have hidle : drawn.attempt (List.replicate 8 .cycle ++ [.tick] ++ Machine.schedule 599) =
        .ok drawn := by
      refine Machine.attempt_of_idle hstay (hhere.trans (by decide)) rfl rfl fun op hop => ?_
      have hmem : op ∈ Machine.schedule 600 := by
        rw [hschedule 599]
        exact List.mem_cons_of_mem _ hop
      exact Machine.mem_schedule hmem
    have hattempt : m.attempt (Machine.schedule 600) = .ok drawn := by
      rw [hschedule 599, Machine.attempt_of_ok hresult, hdrawn]
      exact hidle
    obtain ⟨clean, hafter⟩ := Machine.attempt_eq_ok.1 hattempt
    have finishes : Finishes entropy 600 [0xD0, 0x15, 0x12, 0x02] ⟨0, digit.lines, none⟩ := by
      refine .screen (by decide) clean ?_
      rw [hafter]
      exact depicts_lines digit
    exact ((end_to_end _ _).1 _ _).2 (.program (.default "rom") rfl finishes)
  · let m := Machine.boot [0x00, 0xEE] entropy
    have hload : Memory.initial.load [0x00, 0xEE] = .ok m.memory := Memory.load_of_fits (by decide)
    have hword : m.memory.readWord 0x200 = .ok 0x00EE := Memory.readWord_load hload 0 rfl rfl
    have hresult : m.cycle.result = .error (.stackUnderflow 0x200) :=
      (Machine.result_cycle_error hword).2 (.inr ⟨_, rfl, .underflow rfl⟩)
    have finishes : Finishes entropy 7 [0x00, 0xEE]
        ⟨1, [], some (.fault (.stackUnderflow 0x200))⟩ :=
      .fault (by decide) ⟨[], _, hschedule 6, m.not_faults_nil, hresult⟩
    exact ((end_to_end _ _).1 _ _).2
      (.program (.counted "rom" ["more"] (count?_eq_iff.1 rfl)) rfl finishes)

end CommandLine

end ChipEight
