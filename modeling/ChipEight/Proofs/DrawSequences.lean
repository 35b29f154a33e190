import ChipEight.Proofs.Drawing

namespace ChipEight

/-- A draw, with the processor that makes it. -/
structure DrawCall where
  cpu : Cpu
  x : Register
  y : Register
  height : Fin 16

namespace DrawCall

/-- What a draw leaves on a display, be it that it fails on the way. -/
def onto (call : DrawCall) (memory : Memory) (d : Display) : Display :=
  ((⟨call.cpu, memory, d⟩ : Machine).execute (.draw call.x call.y call.height)).state.display

/-- The pixels that a draw flips. -/
def mask (call : DrawCall) (memory : Memory) : Display :=
  (⟨call.cpu, memory, .blank⟩ : Machine).spriteMask call.x call.y call.height

/-- Both draw the same rows of memory in the same place. -/
structure Repeats (a b : DrawCall) : Prop where
  left : a.cpu.get a.x = b.cpu.get b.x
  top : a.cpu.get a.y = b.cpu.get b.y
  index : a.cpu.index = b.cpu.index
  height : a.height = b.height

theorem Repeats.refl (a : DrawCall) : a.Repeats a := ⟨rfl, rfl, rfl, rfl⟩

theorem Repeats.mask_eq {a b : DrawCall} (h : a.Repeats b) (memory : Memory) :
    a.mask memory = b.mask memory := by
  simp only [mask, Machine.spriteMask, Machine.spriteBytes, Machine.spriteRows,
    Machine.spriteLeft, Machine.spriteTop, h.left, h.top, h.index, h.height]

/-- The mask has nothing to do with what is on the display. -/
theorem onto_eq (call : DrawCall) (memory : Memory) (d : Display) :
    call.onto memory d = d ^^^ call.mask memory :=
  Machine.display_draw _ call.x call.y call.height

end DrawCall

/-- Draws one after the other. A draw that fails does not keep the next from being made. -/
def drawAll (memory : Memory) (d : Display) (calls : List DrawCall) : Display :=
  calls.foldl (fun d call => call.onto memory d) d

/-- Draws one after the other, each of them row by row and pixel by pixel. -/
def Checked.drawAll (memory : Memory) : Display → List DrawCall → Option Display
  | d, [] => some d
  | d, call :: calls =>
    (draw ⟨call.cpu, memory, d⟩ call.x call.y call.height).bind fun drawn =>
      drawAll memory drawn.state.display calls

variable {memory : Memory}

theorem Checked.drawAll_eq (d : Display) (calls : List DrawCall) :
    Checked.drawAll memory d calls = some (ChipEight.drawAll memory d calls) := by
  induction calls generalizing d with
  | nil => rfl
  | cons call calls ih =>
    rw [Checked.drawAll, draw_eq, Option.bind_some, ih]
    rfl

theorem drawAll_cons (d : Display) (call : DrawCall) (calls : List DrawCall) :
    drawAll memory d (call :: calls) = drawAll memory (d ^^^ call.mask memory) calls := by
  rw [← call.onto_eq]
  rfl

theorem drawAll_perm (d : Display) {calls other : List DrawCall} (h : calls.Perm other) :
    drawAll memory d calls = drawAll memory d other := by
  apply h.foldl_eq'
  intro a _ b _ d
  simp only [DrawCall.onto_eq]
  exact d.xor_right_comm _ _

theorem drawAll_repeat (d : Display) {a b : DrawCall} (h : a.Repeats b)
    (before between after : List DrawCall) :
    drawAll memory d (before ++ a :: (between ++ b :: after)) =
      drawAll memory d (before ++ (between ++ after)) := by
  have hfront : (before ++ a :: (between ++ b :: after)).Perm
      (a :: b :: (before ++ (between ++ after))) := by
    apply List.perm_middle.trans
    apply List.Perm.cons
    rw [← List.append_assoc, ← List.append_assoc]
    exact List.perm_middle
  rw [drawAll_perm d hfront, drawAll_cons, drawAll_cons, h.mask_eq memory,
    Display.xor_xor_cancel_right]

/-- A display that has been flipped by a mask shares a lit pixel with it where the pixel was off
before. -/
theorem Display.meets_after_flip {d mask : Display} :
    (d ^^^ mask).meets mask = true ↔
      ∃ px py, mask.pixel px py = true ∧ d.pixel px py = false := by
  rw [meets_eq_true]
  apply exists_congr
  intro px
  apply exists_congr
  intro py
  rw [and_comm]
  apply and_congr_right
  intro hlit
  rw [pixel_xor, hlit, Bool.xor_true, Bool.not_eq_true']

theorem Cpu.get_flag_setFlag (c : Cpu) (hit : Bool) : (c.setFlag hit).get .flag = 1 ↔ hit = true := by
  rw [setFlag, get_set, if_pos rfl]
  cases hit <;> decide

namespace Machine

variable {m n : Machine} {x y : Register} {height : Fin 16}

/-- What a second draw makes of a machine. It takes off the display what the first one has put
there. -/
structure Undrawn (m : Machine) (x y : Register) (height : Fin 16) (n : Machine) : Prop where
  display : n.display = m.display
  flag : n.cpu.get .flag = 1 ↔ ∃ px py byte, m.Covers x y height px py ∧
    m.memory.get? (m.cpu.index.toNat + (py - m.spriteTop y)) = some byte ∧
    byte.toNat.testBit (7 - (px - m.spriteLeft x)) = true ∧ m.display.pixel px py = false

theorem pixel_spriteMask_eq_true {px : Column} {py : Row} :
    (m.spriteMask x y height).pixel px py = true ↔ ∃ byte, m.Covers x y height px py ∧
      m.memory.get? (m.cpu.index.toNat + (py - m.spriteTop y)) = some byte ∧
      byte.toNat.testBit (7 - (px - m.spriteLeft x)) = true := by
  by_cases hcovers : m.Covers x y height px py
  · rw [pixel_spriteMask_of_covers hcovers]
    cases m.memory.get? (m.cpu.index.toNat + (py - m.spriteTop y)) with
    | none => simp
    | some byte => simp [hcovers]
  · simp [pixel_spriteMask_of_not_covers hcovers, hcovers]

theorem undrawn_execute (hok : (m.execute (.draw x y height)).result = .ok ())
    (hagain : DrawCall.Repeats ⟨n.cpu, x, y, height⟩ ⟨m.cpu, x, y, height⟩)
    (hmemory : n.memory = m.memory)
    (hdisplay : n.display = m.display ^^^ m.spriteMask x y height) :
    (n.execute (.draw x y height)).result = .ok () ∧
      m.Undrawn x y height (n.execute (.draw x y height)).state := by
  have hresult : (n.execute (.draw x y height)).result = .ok () := by
    apply result_draw.2
    rw [spriteRows, spriteTop, hagain.top, hagain.index]
    exact result_draw.1 hok
  have hmask : n.spriteMask x y height = m.spriteMask x y height := by
    have hcall (k : Machine) :
        k.spriteMask x y height = DrawCall.mask ⟨k.cpu, x, y, height⟩ k.memory := rfl
    rw [hcall, hcall, hmemory]
    exact hagain.mask_eq m.memory
  refine ⟨hresult, ?_⟩
  rw [state_draw hresult, hmask, hdisplay]
  constructor
  case display => exact m.display.xor_xor_cancel_right _
  case flag =>
    rw [Cpu.get_flag_setFlag, Display.meets_after_flip]
    simp only [pixel_spriteMask_eq_true, ← exists_and_right, and_assoc]

/-- A draw leaves what a second one depends on, unless it has the flag for a coordinate. -/
theorem repeats_of_drawn (h : m.Drawn x y height n) (hx : x ≠ .flag) (hy : y ≠ .flag) :
    DrawCall.Repeats ⟨n.cpu, x, y, height⟩ ⟨m.cpu, x, y, height⟩ ∧ n.memory = m.memory := by
  have hindex : n.cpu.index = m.cpu.index := by
    rw [h.others]
  have hmemory : n.memory = m.memory := by
    rw [h.others]
  exact ⟨⟨h.registers x hx, h.registers y hy, hindex, rfl⟩, hmemory⟩

theorem undrawn_cycle (hx : x ≠ .flag) (hy : y ≠ .flag)
    (h : m.cycle.result = .ok (.draw x y height))
    (hnext : m.cycle.state.next? = some (.draw x y height)) :
    m.cycle.state.cycle.result = .ok (.draw x y height) ∧
      m.Undrawn x y height m.cycle.state.cycle.state := by
  obtain ⟨hrepeats, hmemory⟩ := repeats_of_drawn (drawn_cycle h) hx hy
  obtain ⟨w, -, -, hc⟩ := cycle_ok h
  have hok : (m.fetched.execute (.draw x y height)).result = .ok () := by
    rw [hc] at h
    obtain ⟨_, hok, -⟩ := Outcome.result_map_eq_ok.1 h
    exact hok
  have hdisplay : m.cycle.state.display = m.display ^^^ m.spriteMask x y height := by
    rw [hc]
    exact m.fetched.display_draw x y height
  have hagain : DrawCall.Repeats ⟨m.cycle.state.fetched.cpu, x, y, height⟩
      ⟨m.fetched.cpu, x, y, height⟩ :=
    ⟨hrepeats.left, hrepeats.top, hrepeats.index, rfl⟩
  obtain ⟨hresult, hundrawn⟩ := undrawn_execute hok hagain hmemory hdisplay
  rw [cycle_of_next? hnext]
  exact ⟨Outcome.result_map_eq_ok.2 ⟨(), hresult, rfl⟩, hundrawn.display, hundrawn.flag⟩

/-- Draws flip masks that depend on memory and on who draws, and not on the display. So their order
does not matter, and two that are the same are as good as none. A draw made twice takes away what
it has put on the display, and reports the pixels that had been off. -/
theorem draws_commute_and_cancel (memory : Memory) (d : Display) :
    (∀ calls, Checked.drawAll memory d calls = some (drawAll memory d calls)) ∧
    (∀ calls other, calls.Perm other → drawAll memory d calls = drawAll memory d other) ∧
    (∀ before between after a b, a.Repeats b →
      drawAll memory d (before ++ a :: (between ++ b :: after)) =
        drawAll memory d (before ++ (between ++ after))) ∧
    ∀ cpu : Cpu, ∀ x y height, x ≠ .flag → y ≠ .flag →
      let m : Machine := ⟨cpu, memory, d⟩
      ((m.execute (.draw x y height)).result = .ok () →
        let n := (m.execute (.draw x y height)).state
        (n.execute (.draw x y height)).result = .ok () ∧
          m.Undrawn x y height (n.execute (.draw x y height)).state) ∧
      (m.cycle.result = .ok (.draw x y height) →
        m.cycle.state.next? = some (.draw x y height) →
        m.cycle.state.cycle.result = .ok (.draw x y height) ∧
          m.Undrawn x y height m.cycle.state.cycle.state) := by
  refine ⟨Checked.drawAll_eq d, fun _ _ => drawAll_perm d, ?_, ?_⟩
  · intro before between after a b h
    exact drawAll_repeat d h before between after
  · intro cpu x y height hx hy m
    refine ⟨?_, undrawn_cycle hx hy⟩
    intro hok
    obtain ⟨hrepeats, hmemory⟩ := repeats_of_drawn (drawn_execute hok) hx hy
    exact undrawn_execute hok hrepeats hmemory (m.display_draw x y height)

/-- The digit zero drawn twice, and a draw that runs past the end of memory between two others. -/
theorem zero_digit_drawn_twice :
    let m := (Session.launch [0xD0, 0x15, 0xD0, 0x15] {} (Vector.replicate 8 0) none).state.machine
    let zero : DrawCall := ⟨m.cpu, .first, .first, nibble 5⟩
    let beyond : DrawCall := ⟨{ m.cpu with index := 0xFFD }, .first, .first, nibble 5⟩
    m.cycle.state.cycle.state.display = .blank ∧
      m.cycle.state.cycle.state.cpu.get .flag = 1 ∧
      drawAll m.memory .blank [zero, beyond] = drawAll m.memory .blank [beyond, zero] ∧
      drawAll m.memory .blank [zero, beyond, zero] = drawAll m.memory .blank [beyond] := by
  intro m zero beyond
  have hload : Memory.initial.load [0xD0, 0x15, 0xD0, 0x15] = .ok m.memory := rfl
  have hnext : m.next? = some (.draw (nibble 0) (nibble 1) (nibble 5)) :=
    next?_of_load hload 0 rfl rfl rfl rfl
  have hfirst : m.cycle.result = .ok (.draw (nibble 0) (nibble 1) (nibble 5)) := by
    rw [cycle_of_next? hnext]
    exact Outcome.result_map_eq_ok.2 ⟨(), result_draw.2 (.inr (by decide)), rfl⟩
  have hagain : m.cycle.state.next? = some (.draw (nibble 0) (nibble 1) (nibble 5)) := by
    have hpc : m.cycle.state.cpu.pc = m.cpu.pc + 2 := by
      rw [cycle_of_next? hnext, Outcome.state_map]
      exact m.fetched.pc_draw _ _ _
    have hkept : Memory.initial.load [0xD0, 0x15, 0xD0, 0x15] = .ok m.cycle.state.memory := by
      rw [(drawn_cycle hfirst).others]
      exact hload
    apply next?_of_load hkept 2 rfl rfl _ rfl
    rw [hpc]
    rfl
  obtain ⟨-, hperm, hrepeat, htwice⟩ := draws_commute_and_cancel m.memory .blank
  obtain ⟨-, hundrawn⟩ := (htwice m.cpu (nibble 0) (nibble 1) (nibble 5) (by decide) (by decide)).2
    hfirst hagain
  refine ⟨hundrawn.display, ?_, hperm _ _ (.swap _ _ _),
    hrepeat [] [beyond] [] zero zero (.refl zero)⟩
  -- The corner of the digit is lit, and nothing was before.
  have hbyte : m.memory.get? 0 = some 0xF0 :=
    (Memory.get?_load hload 0).trans (Memory.get?_initial (by decide))
  have hcovers : m.Covers (nibble 0) (nibble 1) (nibble 5) 0 0 := ⟨by decide, by decide⟩
  exact hundrawn.flag.2 ⟨0, 0, 0xF0, hcovers, hbyte, by decide, Display.pixel_blank _ _⟩

end Machine

end ChipEight
