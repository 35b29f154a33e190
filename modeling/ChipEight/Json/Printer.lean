import ChipEight.Json.Basic
import ChipEight.Numeral

namespace ChipEight.Json

open Numeral

/-- Only printable ASCII other than the quote and the backslash stands for itself. -/
def Text.renderUnit (u : UInt16) : List Char :=
  if u = 0x22 then ['\\', '\"']
  else if u = 0x5C then ['\\', '\\']
  else if 0x20 ≤ u && u < 0x7F then [Char.ofNat u.toNat]
  else '\\' :: 'u' :: padded 4 16 u.toNat

def Text.render (t : Text) : List Char := '\"' :: (t.units.flatMap renderUnit ++ ['\"'])

def renderInt : Int → List Char
  | .ofNat n => padded 1 10 n
  | .negSucc n => '-' :: padded 1 10 (n + 1)

def Number.render (n : Number) : List Char :=
  let sign := if n.negative then ['-'] else []
  let fraction :=
    if n.fraction.isEmpty then [] else '.' :: n.fraction.map (fun d => digitChar d.val)
  let exponent := n.exponent.elim [] fun e => 'e' :: renderInt e
  sign ++ padded 1 10 n.whole ++ fraction ++ exponent

mutual

/-- No blanks anywhere. -/
def chars : Json → List Char
  | .null => ['n', 'u', 'l', 'l']
  | .bool true => ['t', 'r', 'u', 'e']
  | .bool false => ['f', 'a', 'l', 's', 'e']
  | .number n => n.render
  | .string t => t.render
  | .array [] => ['[', ']']
  | .array (v :: vs) => '[' :: (chars v ++ elementChars vs)
  | .object [] => ['\x7b', '\x7d']
  | .object ((name, v) :: ms) => '\x7b' :: (name.render ++ ':' :: (chars v ++ memberChars ms))

/-- What follows the first element of an array. -/
def elementChars : List Json → List Char
  | [] => [']']
  | v :: vs => ',' :: (chars v ++ elementChars vs)

/-- What follows the first member of an object. -/
def memberChars : List (Text × Json) → List Char
  | [] => ['\x7d']
  | (name, v) :: ms => ',' :: (name.render ++ ':' :: (chars v ++ memberChars ms))

end

def render (v : Json) : String := String.ofList (chars v)

end ChipEight.Json
