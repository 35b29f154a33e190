namespace ChipEight.Memory

/-- Rows of a glyph. -/
def glyphHeight : Nat := 5

/-- The sixteen hexadecimal digits, four pixels wide. -/
def glyphs : List (List UInt8) := [
  [0xF0, 0x90, 0x90, 0x90, 0xF0],
  [0x20, 0x60, 0x20, 0x20, 0x70],
  [0xF0, 0x10, 0xF0, 0x80, 0xF0],
  [0xF0, 0x10, 0xF0, 0x10, 0xF0],
  [0x90, 0x90, 0xF0, 0x10, 0x10],
  [0xF0, 0x80, 0xF0, 0x10, 0xF0],
  [0xF0, 0x80, 0xF0, 0x90, 0xF0],
  [0xF0, 0x10, 0x20, 0x40, 0x40],
  [0xF0, 0x90, 0xF0, 0x90, 0xF0],
  [0xF0, 0x90, 0xF0, 0x10, 0xF0],
  [0xF0, 0x90, 0xF0, 0x90, 0x90],
  [0xE0, 0x90, 0xE0, 0x90, 0xE0],
  [0xF0, 0x80, 0x80, 0x80, 0xF0],
  [0xE0, 0x90, 0x90, 0x90, 0xE0],
  [0xF0, 0x80, 0xF0, 0x80, 0xF0],
  [0xF0, 0x80, 0xF0, 0x80, 0x80]]

/-- All glyphs in a row, as they lie in memory from address 0. -/
def font : List UInt8 := glyphs.flatten

end ChipEight.Memory
