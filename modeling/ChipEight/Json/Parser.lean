import ChipEight.Json.Basic
import ChipEight.Numeral

namespace ChipEight.Json

open Numeral

namespace Parser

def isBlank (c : Char) : Bool := c = ' ' || c = '\t' || c = '\n' || c = '\r'

def blanks (cs : List Char) : List Char := cs.dropWhile isBlank

/-- The longest run of decimal digits, with what follows it. -/
def digits : List Char → List (Fin 10) × List Char
  | [] => ([], [])
  | c :: cs =>
    match decimalDigit? c with
    | some d =>
      let (ds, rest) := digits cs
      (d :: ds, rest)
    | none => ([], c :: cs)

def toNat (ds : List (Fin 10)) : Nat := ofDigits 10 (ds.map (·.val))

/-- The whole part has no leading zero unless it is zero. -/
def whole (cs : List Char) : Option (Nat × List Char) :=
  match digits cs with
  | ([], _) => none
  | (d :: ds, rest) => if d = 0 ∧ ds ≠ [] then none else some (toNat (d :: ds), rest)

/-- A point needs a digit behind it. -/
def fraction : List Char → Option (List (Fin 10) × List Char)
  | '.' :: cs =>
    match digits cs with
    | ([], _) => none
    | r => some r
  | cs => some ([], cs)

/-- The digits of an exponent, which may start with zeros. -/
def exponentDigits (negative : Bool) (cs : List Char) : Option (Option Int × List Char) :=
  match digits cs with
  | ([], _) => none
  | (ds, rest) => some (some (if negative then -(toNat ds : Int) else toNat ds), rest)

def exponent : List Char → Option (Option Int × List Char)
  | c :: cs =>
    if c = 'e' ∨ c = 'E' then
      match cs with
      | '+' :: cs => exponentDigits false cs
      | '-' :: cs => exponentDigits true cs
      | cs => exponentDigits false cs
    else some (none, c :: cs)
  | [] => some (none, [])

def unsigned (negative : Bool) (cs : List Char) : Option (Number × List Char) := do
  let (w, cs) ← whole cs
  let (f, cs) ← fraction cs
  let (e, cs) ← exponent cs
  return (⟨negative, w, f, e⟩, cs)

def number : List Char → Option (Number × List Char)
  | '-' :: cs => unsigned true cs
  | cs => unsigned false cs

def escape? : Char → Option UInt16
  | '\"' => some 0x22
  | '\\' => some 0x5C
  | '/' => some 0x2F
  | 'b' => some 0x08
  | 'f' => some 0x0C
  | 'n' => some 0x0A
  | 'r' => some 0x0D
  | 't' => some 0x09
  | _ => none

def hexUnit? (a b c d : Char) : Option UInt16 := do
  let ds ← [a, b, c, d].mapM hexDigit?
  return (ofDigits 16 (ds.map (·.val))).toUInt16

/-- The content of a string up to its closing quote. Control characters have to be escaped. -/
def units : List Char → Option (List UInt16 × List Char)
  | [] => none
  | '\"' :: cs => some ([], cs)
  | '\\' :: 'u' :: a :: b :: c :: d :: cs => do
    let u ← hexUnit? a b c d
    let (us, cs) ← units cs
    return (u :: us, cs)
  | '\\' :: e :: cs => do
    let u ← escape? e
    let (us, cs) ← units cs
    return (u :: us, cs)
  | c :: cs =>
    if c = '\\' ∨ c.toNat < 0x20 then none
    else do
      let (us, cs) ← units cs
      return (Text.unitsOf c ++ us, cs)

def text (cs : List Char) : Option (Text × List Char) := do
  let (us, cs) ← units cs
  return (⟨us⟩, cs)

mutual

/-- A value at the head of the input. Each step uses up one unit of `fuel`. -/
def value : Nat → List Char → Option (Json × List Char)
  | 0, _ => none
  | fuel + 1, cs =>
    match cs with
    | 'n' :: 'u' :: 'l' :: 'l' :: cs => some (.null, cs)
    | 't' :: 'r' :: 'u' :: 'e' :: cs => some (.bool true, cs)
    | 'f' :: 'a' :: 'l' :: 's' :: 'e' :: cs => some (.bool false, cs)
    | '\"' :: cs => (text cs).map fun (t, cs) => (.string t, cs)
    | '[' :: cs =>
      match blanks cs with
      | ']' :: cs => some (.array [], cs)
      | cs => (elements fuel cs).map fun (vs, cs) => (.array vs, cs)
    | '\x7b' :: cs =>
      match blanks cs with
      | '\x7d' :: cs => some (.object [], cs)
      | cs => (members fuel cs).map fun (ms, cs) => (.object ms, cs)
    | cs => (number cs).map fun (n, cs) => (.number n, cs)

/-- Elements up to the bracket that closes the array, from the first character of one on. -/
def elements : Nat → List Char → Option (List Json × List Char)
  | 0, _ => none
  | fuel + 1, cs => do
    let (v, cs) ← value fuel cs
    match blanks cs with
    | ',' :: cs =>
      let (vs, cs) ← elements fuel (blanks cs)
      return (v :: vs, cs)
    | ']' :: cs => return ([v], cs)
    | _ => none

/-- Members up to the brace that closes the object, from the first character of one on. -/
def members : Nat → List Char → Option (Members × List Char)
  | 0, _ => none
  | fuel + 1, '\"' :: cs => do
    let (name, cs) ← text cs
    match blanks cs with
    | ':' :: cs =>
      let (v, cs) ← value fuel (blanks cs)
      match blanks cs with
      | ',' :: cs =>
        let (ms, cs) ← members fuel (blanks cs)
        return ((name, v) :: ms, cs)
      | '\x7d' :: cs => return ([(name, v)], cs)
      | _ => none
    | _ => none
  | _, _ => none

end

/-- A value with nothing but blanks around it. -/
def document (cs : List Char) : Option Json :=
  match value (2 * cs.length + 2) (blanks cs) with
  | some (v, rest) => if (blanks rest).isEmpty then some v else none
  | none => none

end Parser

def parse (s : String) : Option Json := Parser.document s.toList

end ChipEight.Json
