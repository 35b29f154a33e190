import ChipEight.Json.Text

namespace ChipEight

namespace Json

/-- A number as it is written: nothing is rounded, and `1`, `1.0` and `10e-1` differ. -/
structure Number where
  negative : Bool
  whole : Nat
  fraction : List (Fin 10)
  exponent : Option Int
  deriving DecidableEq

end Json

/-- Members of an object keep their order and may repeat a name. -/
inductive Json
  | null
  | bool (value : Bool)
  | number (value : Json.Number)
  | string (text : Json.Text)
  | array (elements : List Json)
  | object (members : List (Json.Text × Json))

namespace Json

abbrev Members := List (Text × Json)

def ofNat (n : Nat) : Json := .number ⟨false, n, [], none⟩

def ofString (s : String) : Json := .string (.ofString s)

/-- An object from names that are text. -/
def record (members : List (String × Json)) : Json :=
  .object (members.map fun (name, value) => (.ofString name, value))

end Json

end ChipEight
