import ChipEight.Json.Basic

namespace ChipEight.Json

variable {α : Type}

/-- Whether every name is text. -/
def namesAreText (ms : Members) : Bool := ms.all fun m => m.1.string?.isSome

/-- The values given to a name, in order. -/
def valuesOf (name : String) (ms : Members) : List Json :=
  (ms.filter fun m => m.1.string? = some name).map (·.2)

/-- The value of a field, if it has one. Fails if it is given twice. -/
def field? (name : String) (ms : Members) : Option (Option Json) :=
  match valuesOf name ms with
  | [] => some none
  | [v] => some (some v)
  | _ => none

def bool? : Json → Option Bool
  | .bool b => some b
  | _ => none

/-- A number below the bound, written with digits alone: no sign, no point, no exponent. -/
def natural? (bound : Nat) : Json → Option Nat
  | .number n =>
    if n.negative = false ∧ n.fraction = [] ∧ n.exponent = none ∧ n.whole < bound then some n.whole
    else none
  | _ => none

/-- A 64-bit number. -/
def count? (v : Json) : Option UInt64 := (v.natural? UInt64.size).map (·.toUInt64)

/-- Null stands for no value. -/
def nullable (f : Json → Option α) : Json → Option (Option α)
  | .null => some none
  | v => (f v).map some

def ofName? (all : List α) (name : α → String) (t : Text) : Option α :=
  all.find? fun a => t.string? = some (name a)

/-- One of several named values: the name, or an object that gives null to the name alone. -/
def choice? (all : List α) (name : α → String) : Json → Option α
  | .string t => ofName? all name t
  | .object [(t, .null)] => ofName? all name t
  | _ => none

/-- An array of exactly `n` elements. -/
def vector? (n : Nat) (f : Json → Option α) : Json → Option (Vector α n)
  | .array vs => do
    let xs ← vs.mapM f
    if h : xs.length = n then some ⟨xs.toArray, by simpa using h⟩ else none
  | _ => none

def ofOption (f : α → Json) : Option α → Json
  | none => .null
  | some a => f a

end ChipEight.Json
