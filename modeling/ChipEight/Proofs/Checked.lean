import ChipEight.Proofs.Sprites
import ChipEight.Proofs.Step

namespace ChipEight.Checked

/-! The machine with its indices and its sums checked: `none` where one is out of range. -/

def sum (a b : UInt16) : Option UInt16 := if a.toNat + b.toNat < 65536 then some (a + b) else none

def difference (a b : UInt16) : Option UInt16 := if b.toNat ≤ a.toNat then some (a - b) else none

def product (a b : UInt16) : Option UInt16 :=
  if a.toNat * b.toNat < 65536 then some (a * b) else none

def get (c : Cpu) (x : Nat) : Option UInt8 := c.registers[x]?

def set (c : Cpu) (x : Nat) (byte : UInt8) : Option Cpu :=
  if h : x < 16 then some { c with registers := c.registers.set x byte } else none

def advance (c : Cpu) : Option Cpu := (sum c.pc 2).map fun pc => { c with pc := pc }

def origin (c : Cpu) : Option UInt16 := difference c.pc 2

def skipIf (c : Cpu) (skip : Bool) : Option Cpu := if skip then advance c else some c

def showsKey (c : Cpu) (x : Register) : Option Bool :=
  (get c x).map fun byte => c.keypad.latch.map Key.toByte = some byte

def holds (c : Cpu) : Condition → Option Bool
  | .equalsByte x byte => (get c x).map fun a => a = byte
  | .differsFromByte x byte => (get c x).map fun a => a ≠ byte
  | .equal x y => (get c x).bind fun a => (get c y).map fun b => a = b
  | .differ x y => (get c x).bind fun a => (get c y).map fun b => a ≠ b
  | .keyDown x => showsKey c x
  | .keyUp x => (showsKey c x).map (!·)

def combine (c : Cpu) (op : Alu) (x y : Register) : Option Cpu := do
  let source := if op.isShift && c.shiftInPlace then x else y
  let (value, flag) := op.eval (← get c x) (← get c source)
  let c ← set c x value
  match flag with
  | none => some c
  | some flag => set c 0xF flag.toUInt8

/-- Writes that many registers from one on. -/
def dump (c : Cpu) : Nat → Nat → Memory → Option (Memory × Option Fault)
  | _, 0, memory => some (memory, none)
  | x, n + 1, memory => do
    let byte ← get c x
    match memory.write (c.index.toNat + x) byte with
    | .error fault => some (memory, some fault)
    | .ok memory => dump c (x + 1) n memory

/-- Reads that many registers from one on. -/
def restore (memory : Memory) : Nat → Nat → Cpu → Option (Cpu × Option Fault)
  | _, 0, c => some (c, none)
  | x, n + 1, c =>
    match memory.read (c.index.toNat + x) with
    | .error fault => some (c, some fault)
    | .ok byte => do restore memory (x + 1) n (← set c x byte)

def draw (m : Machine) (x y : Register) (height : Nat) : Option (Outcome Machine Unit) := do
  let column := (← get m.cpu x).toNat % 64
  let row := (← get m.cpu y).toNat % 32
  let ((display, hit), fault) ←
    drawRows m.memory m.cpu.index.toNat column row 0 height (m.display, false)
  match fault with
  | none => return .done { m with display := display, cpu := ← set m.cpu 0xF hit.toUInt8 } ()
  | some fault => return .fail { m with display := display } fault []

def execute (m : Machine) : Instruction → Option (Outcome Machine Unit)
  | .machineCode target => do
    let opcode := target.val.toUInt16
    let here ← origin m.cpu
    return .fail m (.unsupportedCall opcode here)
      (m.cpu.report "unsupported machine code call"
        [("opcode", opcodeText opcode), ("pc", counterText here)])
  | .clearScreen => return .done { m with display := .blank } ()
  | .ret =>
    if m.cpu.stack.depth.val = 0 then do
      let here ← origin m.cpu
      return .fail m (.stackUnderflow here)
        (m.cpu.report "return with an empty call stack" [("pc", counterText here)])
    else do
      let (address, stack) ← m.cpu.stack.pop?
      return m.withCpu { m.cpu with stack := stack, pc := address }
  | .jump target => return m.withCpu { m.cpu with pc := target.val.toUInt16 }
  | .call target =>
    if m.cpu.stack.depth.val = 16 then do
      let here ← origin m.cpu
      return .fail m (.stackOverflow here)
        (m.cpu.report "call with a full call stack"
          [("pc", counterText here), ("target", counterText target.val.toUInt16)])
    else do
      let stack ← m.cpu.stack.push? m.cpu.pc
      return m.withCpu { m.cpu with stack := stack, pc := target.val.toUInt16 }
  | .skipIf test => do return m.withCpu (← skipIf m.cpu (← holds m.cpu test))
  | .load x byte => do return m.withCpu (← set m.cpu x byte)
  | .increment x byte => do return m.withCpu (← set m.cpu x ((← get m.cpu x) + byte))
  | .combine op x y => do return m.withCpu (← combine m.cpu op x y)
  | .setIndex target => return m.withCpu { m.cpu with index := target.val.toUInt16 }
  | .jumpFrom target => do
    let pc ← sum target.val.toUInt16 (← get m.cpu 0).toUInt16
    return m.withCpu { m.cpu with pc := pc }
  | .random x mask => do
    let c ← set m.cpu x (m.cpu.random.next.1 &&& mask)
    return m.withCpu { c with random := m.cpu.random.next.2 }
  | .draw x y height => draw m x y height
  | .readDelay x => do return m.withCpu (← set m.cpu x m.cpu.delay)
  | .awaitKey x =>
    match m.cpu.keypad.latch with
    | some key => do return m.withCpu (← set m.cpu x key.toByte)
    | none => do return m.withCpu { m.cpu with pc := ← origin m.cpu }
  | .setDelay x => do return m.withCpu { m.cpu with delay := ← get m.cpu x }
  | .setSound x => do return m.withCpu { m.cpu with sound := ← get m.cpu x }
  | .addIndex x => do
    return m.withCpu { m.cpu with index := m.cpu.index + (← get m.cpu x).toUInt16 }
  | .pointGlyph x => do
    let index ← product (← get m.cpu x).toUInt16 Memory.glyphHeight.toUInt16
    return m.withCpu { m.cpu with index := index }
  | .storeDecimal x => do
    let value ← get m.cpu x
    return m.store [value / 100, value / 10 % 10, value % 10]
  | .dump x => do
    let (memory, fault) ← dump m.cpu 0 (x + 1) m.memory
    return .ofFault { m with memory := memory } fault
  | .restore x => do
    let (c, fault) ← restore m.memory 0 (x + 1) m.cpu
    return .ofFault { m with cpu := c } fault

def cycle (m : Machine) : Option (Outcome Machine Instruction) :=
  match m.memory.readWord m.cpu.pc.toNat with
  | .error fault => some (.fail m fault [])
  | .ok word => do
    let next := { m with cpu := ← advance m.cpu }
    match Instruction.decode word with
    | none =>
      return .fail next (.unknownOpcode word m.cpu.pc)
        (m.cpu.report "unknown opcode"
          [("opcode", opcodeText word), ("pc", counterText m.cpu.pc)])
    | some instruction => return (← execute next instruction).map fun _ => instruction

variable {c : Cpu} {m : Machine}

theorem sum_of_lt {a b : UInt16} (h : a.toNat + b.toNat < 65536) : sum a b = some (a + b) :=
  if_pos h

theorem product_of_lt {a b : UInt16} (h : a.toNat * b.toNat < 65536) :
    product a b = some (a * b) := if_pos h

theorem get_eq (c : Cpu) (x : Register) : get c x = some (c.get x) :=
  Vector.getElem?_eq_getElem x.isLt

theorem set_eq (c : Cpu) (x : Register) (byte : UInt8) : set c x byte = some (c.set x byte) :=
  dif_pos x.isLt

theorem advance_eq (h : c.pc.toNat + 2 < 65536) : advance c = some c.advance := by
  rw [advance, sum_of_lt h]
  rfl

theorem origin_eq (h : 2 ≤ c.pc.toNat) : origin c = some c.origin := if_pos h

theorem skipIf_eq (skip : Bool) (h : c.pc.toNat + 2 < 65536) :
    skipIf c skip = some (if skip then c.advance else c) := by
  rw [skipIf, advance_eq h, apply_ite some]

theorem showsKey_eq (c : Cpu) (x : Register) : showsKey c x = some (c.showsKey x) := by
  rw [showsKey, get_eq]
  rfl

theorem holds_eq (c : Cpu) (test : Condition) : holds c test = some (c.holds test) := by
  cases test with
  | equalsByte x byte | differsFromByte x byte =>
    rw [holds, get_eq]
    rfl
  | equal x y | differ x y =>
    rw [holds, get_eq, get_eq]
    rfl
  | keyDown x | keyUp x =>
    rw [holds, showsKey_eq]
    rfl

theorem combine_eq (c : Cpu) (op : Alu) (x y : Register) :
    combine c op x y = some (c.combine op x y) := by
  simp only [combine, get_eq, set_eq, Option.bind_eq_bind, Option.bind_some]
  split
  · rename_i hflag
    simp only [Cpu.combine, hflag]
    rfl
  · rename_i flag hflag
    simp only [Cpu.combine, hflag]
    exact set_eq _ .flag _

theorem dump_eq (c : Cpu) (n x : Nat) (memory : Memory) (h : x + n ≤ 16) :
    dump c x n memory =
      some (memory.writeMany (c.index.toNat + x) ((c.registers.toList.drop x).take n)) := by
  induction n generalizing x memory with
  | zero => rfl
  | succ n ih =>
    have hx : x < 16 := by omega
    have hget : get c x = some c.registers[x] := Vector.getElem?_eq_getElem hx
    have hdrop : c.registers.toList.drop x = c.registers[x] :: c.registers.toList.drop (x + 1) := by
      rw [List.drop_eq_getElem_cons (by simpa using hx), Vector.getElem_toList]
    rw [hdrop, List.take_succ_cons]
    cases hwrite : memory.write (c.index.toNat + x) c.registers[x] with
    | error fault =>
      simp only [dump, hget, Option.bind_eq_bind, Option.bind_some, hwrite, Memory.writeMany]
    | ok memory' =>
      simp only [dump, hget, Option.bind_eq_bind, Option.bind_some, hwrite, Memory.writeMany]
      exact ih _ _ (by omega)

/-- The registers from one on with bytes written over them. -/
def overwrite (c : Cpu) (x : Nat) (bytes : List UInt8) : Cpu :=
  { c with
    registers := Vector.ofFn fun r : Fin 16 =>
      if x ≤ r then bytes.getD (r - x) (c.get r) else c.get r }

theorem overwrite_nil (c : Cpu) (x : Nat) : overwrite c x [] = c := by
  have hregisters : (overwrite c x []).registers = c.registers := by
    apply Vector.ext
    intro i hi
    simp [overwrite, Cpu.get]
  show { c with registers := (overwrite c x []).registers } = c
  rw [hregisters]

theorem overwrite_cons (c : Cpu) {x : Nat} (hx : x < 16) (byte : UInt8) (bytes : List UInt8) :
    overwrite (c.set ⟨x, hx⟩ byte) (x + 1) bytes = overwrite c x (byte :: bytes) := by
  have hregisters : (overwrite (c.set ⟨x, hx⟩ byte) (x + 1) bytes).registers =
      (overwrite c x (byte :: bytes)).registers := by
    apply Vector.ext
    intro i hi
    simp only [overwrite, Cpu.set, Cpu.get, Vector.getElem_ofFn, Fin.getElem_fin, Vector.getElem_set]
    rcases Nat.lt_trichotomy i x with hix | hix | hix
    · simp [show ¬ x ≤ i by omega, show ¬ x + 1 ≤ i by omega, show x ≠ i by omega]
    · subst hix
      simp [show ¬ i + 1 ≤ i by omega]
    · have hsucc : i - x = i - (x + 1) + 1 := by omega
      simp [show x ≤ i by omega, show x + 1 ≤ i by omega, show x ≠ i by omega, hsucc]
  exact congrArg (fun registers => { c with registers := registers }) hregisters

theorem overwrite_zero (c : Cpu) (bytes : List UInt8) : overwrite c 0 bytes = c.setMany bytes := by
  simp only [overwrite, Cpu.setMany, Nat.zero_le, if_true, Nat.sub_zero]

theorem restore_eq (memory : Memory) (n x : Nat) (c : Cpu) (h : x + n ≤ 16) :
    restore memory x n c =
      some (overwrite c x (memory.readMany (c.index.toNat + x) n).1,
        (memory.readMany (c.index.toNat + x) n).2) := by
  induction n generalizing x c with
  | zero => rw [restore, Memory.readMany, overwrite_nil]
  | succ n ih =>
    have hx : x < 16 := by omega
    rcases Nat.lt_or_ge (c.index.toNat + x) Memory.size with ha | ha
    · rw [restore, Memory.readMany, Memory.read_of_lt _ ha]
      show (set c x _).bind _ = _
      rw [set_eq c ⟨x, hx⟩, Option.bind_some, ih _ _ (by omega), overwrite_cons]
      rfl
    · rw [restore, Memory.readMany, Memory.read_of_le _ ha]
      show some (c, _) = some (overwrite c x [], _)
      rw [overwrite_nil]

theorem draw_eq (m : Machine) (x y : Register) (height : Fin 16) :
    draw m x y height = some (m.draw x y height) := by
  have hrows := drawRows_eq m.memory m.cpu.index.toNat (Fin.ofNat 64 (m.cpu.get x).toNat)
    (Fin.ofNat 32 (m.cpu.get y).toNat) height m.display
  simp only [Fin.val_ofNat] at hrows
  cases hfault : (m.memory.readMany m.cpu.index.toNat
      (min height.val (32 - (m.cpu.get y).toNat % 32))).2 with
  | none =>
    simp only [draw, get_eq, Option.bind_eq_bind, Option.bind_some, hrows, Machine.draw,
      Fin.val_ofNat, hfault]
    show (set m.cpu Register.flag _).bind _ = _
    rw [set_eq]
    rfl
  | some fault =>
    simp only [draw, get_eq, Option.bind_eq_bind, Option.bind_some, hrows, Machine.draw,
      Fin.val_ofNat, hfault]
    rfl

/-- No instruction goes out of range from behind its own word. -/
theorem execute_eq (m : Machine) (i : Instruction) (hlow : 2 ≤ m.cpu.pc.toNat)
    (hhigh : m.cpu.pc.toNat + 2 < 65536) : execute m i = some (m.execute i) := by
  have horigin := origin_eq hlow
  cases i with
  | machineCode target =>
    rw [execute, horigin]
    rfl
  | ret =>
    rw [execute]
    by_cases hd : m.cpu.stack.depth.val = 0
    · rw [if_pos hd, horigin]
      simp only [Machine.execute, CallStack.pop?_eq_none.2 hd]
      rfl
    · obtain ⟨popped, hp⟩ := Option.ne_none_iff_exists'.1 (mt CallStack.pop?_eq_none.1 hd)
      rw [if_neg hd, hp]
      simp only [Machine.execute, hp]
      rfl
  | call target =>
    rw [execute]
    by_cases hd : m.cpu.stack.depth.val = 16
    · rw [if_pos hd, horigin]
      simp only [Machine.execute, CallStack.push?_eq_none.2 hd]
      rfl
    · obtain ⟨pushed, hp⟩ := Option.ne_none_iff_exists'.1 (mt CallStack.push?_eq_none.1 hd)
      rw [if_neg hd, hp]
      simp only [Machine.execute, hp]
      rfl
  | skipIf test =>
    rw [execute, holds_eq]
    show (skipIf m.cpu (m.cpu.holds test)).bind _ = _
    rw [skipIf_eq _ hhigh]
    rfl
  | jumpFrom target =>
    have ht := target.isLt
    have hv := (m.cpu.get .first).toNat_lt
    have hfits : target.val.toUInt16.toNat + (m.cpu.get .first).toUInt16.toNat < 65536 := by
      simp only [Nat.toUInt16_eq, UInt16.toNat_ofNat', UInt8.toNat_toUInt16]
      omega
    rw [execute, show get m.cpu 0 = some (m.cpu.get .first) from get_eq m.cpu .first]
    show (sum _ _).bind _ = _
    rw [sum_of_lt hfits]
    rfl
  | awaitKey x =>
    cases hlatch : m.cpu.keypad.latch with
    | some key =>
      simp only [execute, Machine.execute, hlatch, set_eq]
      rfl
    | none =>
      simp only [execute, Machine.execute, hlatch, horigin]
      rfl
  | pointGlyph x =>
    have hv := (m.cpu.get x).toNat_lt
    have hfits : (m.cpu.get x).toUInt16.toNat * Memory.glyphHeight.toUInt16.toNat < 65536 := by
      have hheight : Memory.glyphHeight.toUInt16.toNat = 5 := rfl
      rw [hheight, UInt8.toNat_toUInt16]
      omega
    rw [execute, get_eq]
    show (product _ _).bind _ = _
    rw [product_of_lt hfits]
    rfl
  | draw x y height => exact draw_eq m x y height
  | dump x =>
    rw [execute, dump_eq _ _ _ _ (by omega)]
    rfl
  | restore x =>
    rw [execute, restore_eq _ _ _ _ (by omega), overwrite_zero]
    rfl
  | load x byte | readDelay x | random x mask =>
    rw [execute, set_eq]
    rfl
  | increment x byte =>
    rw [execute, get_eq]
    show (set m.cpu x _).bind _ = _
    rw [set_eq]
    rfl
  | combine op x y =>
    rw [execute, combine_eq]
    rfl
  | setDelay x | setSound x | addIndex x | storeDecimal x =>
    rw [execute, get_eq]
    rfl
  | _ => rfl

theorem cycle_eq (m : Machine) : cycle m = some m.cycle := by
  cases hw : m.memory.readWord m.cpu.pc.toNat with
  | error fault =>
    rw [Machine.cycle_of_fault hw, cycle, hw]
  | ok w =>
    -- Words are fetched below 4094, so neither the counter nor a skip behind it can wrap.
    obtain ⟨hpc, hle⟩ := Machine.toNat_fetched hw
    rw [cycle, hw]
    show (advance m.cpu).bind _ = _
    rw [advance_eq (by omega), Option.bind_some]
    cases hd : Instruction.decode w with
    | none =>
      rw [Machine.cycle_of_unknown hw hd]
      rfl
    | some i =>
      have hi := execute_eq m.fetched i (by omega) (by omega)
      rw [Machine.cycle_of_decoded hw hd]
      show (execute m.fetched i).bind _ = _
      rw [hi]
      rfl

end ChipEight.Checked
