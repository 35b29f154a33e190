import ChipEight.Cpu
import ChipEight.Display
import ChipEight.Instruction.Encoding
import ChipEight.Outcome

namespace ChipEight

structure Machine where
  cpu : Cpu
  memory : Memory
  display : Display
  deriving DecidableEq

namespace Machine

/-- Succeeds with another processor and leaves memory and display alone. -/
def withCpu (m : Machine) (c : Cpu) : Outcome Machine Unit := .done { m with cpu := c } ()

/-- Writes bytes from I on. -/
def store (m : Machine) (bytes : List UInt8) : Outcome Machine Unit :=
  let (memory, fault) := m.memory.writeMany m.cpu.index.toNat bytes
  .ofFault { m with memory := memory } fault

/-- Draws the bytes from I on as a sprite. The corner wraps onto the screen and the sprite is
clipped there, so rows below the bottom edge are not even read. -/
def draw (m : Machine) (x y : Register) (height : Fin 16) : Outcome Machine Unit :=
  let column : Column := Fin.ofNat 64 (m.cpu.get x).toNat
  let row : Row := Fin.ofNat 32 (m.cpu.get y).toNat
  let (bytes, fault) := m.memory.readMany m.cpu.index.toNat (min height (32 - row))
  let (display, hit) := m.display.stamp (.sprite column row bytes)
  match fault with
  | none => .done { m with display := display, cpu := m.cpu.setFlag hit } ()
  | some fault => .fail { m with display := display } fault []

/-- Loads V0 to Vx from I on. -/
def restore (m : Machine) (x : Register) : Outcome Machine Unit :=
  let (bytes, fault) := m.memory.readMany m.cpu.index.toNat (x + 1)
  .ofFault { m with cpu := m.cpu.setMany bytes } fault

/-- Carries out an instruction that the program counter has moved past. -/
def execute (m : Machine) : Instruction → Outcome Machine Unit
  | .machineCode target =>
    let opcode := target.val.toUInt16
    .fail m (.unsupportedCall opcode m.cpu.origin)
      (m.cpu.report "unsupported machine code call"
        [("opcode", opcodeText opcode), ("pc", counterText m.cpu.origin)])
  | .clearScreen => .done { m with display := .blank } ()
  | .ret =>
    match m.cpu.stack.pop? with
    | some (address, stack) => m.withCpu { m.cpu with stack := stack, pc := address }
    | none =>
      .fail m (.stackUnderflow m.cpu.origin)
        (m.cpu.report "return with an empty call stack" [("pc", counterText m.cpu.origin)])
  | .jump target => m.withCpu { m.cpu with pc := target.val.toUInt16 }
  | .call target =>
    match m.cpu.stack.push? m.cpu.pc with
    | some stack => m.withCpu { m.cpu with stack := stack, pc := target.val.toUInt16 }
    | none =>
      .fail m (.stackOverflow m.cpu.origin)
        (m.cpu.report "call with a full call stack"
          [("pc", counterText m.cpu.origin), ("target", counterText target.val.toUInt16)])
  | .skipIf test => m.withCpu (if m.cpu.holds test then m.cpu.advance else m.cpu)
  | .load x byte => m.withCpu (m.cpu.set x byte)
  | .increment x byte => m.withCpu (m.cpu.set x (m.cpu.get x + byte))
  | .combine op x y => m.withCpu (m.cpu.combine op x y)
  | .setIndex target => m.withCpu { m.cpu with index := target.val.toUInt16 }
  | .jumpFrom target => m.withCpu { m.cpu with pc := target.val.toUInt16 + (m.cpu.get .first).toUInt16 }
  | .random x mask =>
    let (byte, random) := m.cpu.random.next
    m.withCpu { m.cpu.set x (byte &&& mask) with random := random }
  | .draw x y height => m.draw x y height
  | .readDelay x => m.withCpu (m.cpu.set x m.cpu.delay)
  | .awaitKey x =>
    match m.cpu.keypad.latch with
    | some key => m.withCpu (m.cpu.set x key.toByte)
    | none => m.withCpu { m.cpu with pc := m.cpu.origin }
  | .setDelay x => m.withCpu { m.cpu with delay := m.cpu.get x }
  | .setSound x => m.withCpu { m.cpu with sound := m.cpu.get x }
  | .addIndex x => m.withCpu { m.cpu with index := m.cpu.index + (m.cpu.get x).toUInt16 }
  | .pointGlyph x =>
    m.withCpu { m.cpu with index := (m.cpu.get x).toUInt16 * Memory.glyphHeight.toUInt16 }
  | .storeDecimal x =>
    let value := m.cpu.get x
    m.store [value / 100, value / 10 % 10, value % 10]
  | .dump x => m.store (m.cpu.upTo x)
  | .restore x => m.restore x

/-- Fetches the word at the program counter, moves past it and executes it. Answers the
instruction. A fault while fetching leaves everything as it was. -/
def cycle (m : Machine) : Outcome Machine Instruction :=
  match m.memory.readWord m.cpu.pc.toNat with
  | .error fault => .fail m fault []
  | .ok word =>
    let next := { m with cpu := m.cpu.advance }
    match Instruction.decode word with
    | none =>
      .fail next (.unknownOpcode word m.cpu.pc)
        (m.cpu.report "unknown opcode"
          [("opcode", opcodeText word), ("pc", counterText m.cpu.pc)])
    | some instruction => (next.execute instruction).map fun _ => instruction

end Machine

end ChipEight
