namespace ChipEight.Json

/-- The content of a JSON string: 16-bit units, since escapes can spell half of a surrogate pair.
Not every sequence of units is text. -/
structure Text where
  units : List UInt16
  deriving DecidableEq

namespace Text

/-- Characters beyond 16 bits take two units, a high and a low surrogate. -/
def unitsOf (c : Char) : List UInt16 :=
  if c.toNat < 0x10000 then [c.toNat.toUInt16]
  else
    let rest := c.toNat - 0x10000
    [(0xD800 + rest / 0x400).toUInt16, (0xDC00 + rest % 0x400).toUInt16]

def ofString (s : String) : Text := ⟨s.toList.flatMap unitsOf⟩

def isHigh (u : UInt16) : Bool := 0xD800 ≤ u && u < 0xDC00

def isLow (u : UInt16) : Bool := 0xDC00 ≤ u && u < 0xE000

/-- The character of a surrogate pair. -/
def pair (high low : UInt16) : Char :=
  Char.ofNat (0x10000 + (high.toNat - 0xD800) * 0x400 + (low.toNat - 0xDC00))

/-- Fails at a surrogate that is not part of a pair. -/
def chars? : List UInt16 → Option (List Char)
  | [] => some []
  | [u] => if isHigh u || isLow u then none else some [Char.ofNat u.toNat]
  | u :: v :: us =>
    if isHigh u then
      if isLow v then (chars? us).map (pair u v :: ·) else none
    else if isLow u then none
    else (chars? (v :: us)).map (Char.ofNat u.toNat :: ·)

def string? (t : Text) : Option String := (chars? t.units).map String.ofList

end Text

end ChipEight.Json
