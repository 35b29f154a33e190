import ChipEight.Session

namespace ChipEight.CommandLine

open Numeral

inductive CountError
  | empty
  | invalidDigit
  | overflow
  deriving DecidableEq

/-- Counts have 64 bits. -/
def countBound : Nat := UInt64.size

/-- Reads digits from the left. What is wrong first is reported; at one character, that it is no
digit comes before that there is no room for it. -/
def countFrom (n : Nat) : List Char → Except CountError Nat
  | [] => .ok n
  | c :: cs =>
    match decimalDigit? c with
    | none => .error .invalidDigit
    | some d => if n * 10 + d < countBound then countFrom (n * 10 + d) cs else .error .overflow

/-- A count may have a plus sign in front. -/
def count? : List Char → Except CountError Nat
  | [] => .error .empty
  | ['+'] => .error .invalidDigit
  | '+' :: cs => countFrom 0 cs
  | cs => countFrom 0 cs

/-- A refusal of the operating system. -/
structure FileError where
  code : Nat
  kind : String
  description : String
  deriving DecidableEq

def FileError.notFound : FileError := ⟨2, "NotFound", "No such file or directory"⟩

def FileError.isDirectory : FileError := ⟨21, "IsADirectory", "Is a directory"⟩

/-- Why a run of the program failed. -/
inductive Failure
  | usage
  | frames (error : CountError)
  | file (error : FileError)
  | fault (fault : Fault)
  deriving DecidableEq

def CountError.text : CountError → String
  | .empty => "Empty"
  | .invalidDigit => "InvalidDigit"
  | .overflow => "PosOverflow"

/-- A name with its fields in braces. -/
def describe (name : String) (fields : List (String × String)) : String :=
  name ++ " \x7b " ++ ", ".intercalate (fields.map fun (field, value) => field ++ ": " ++ value)
    ++ " \x7d"

def quoted (text : String) : String := "\"" ++ text ++ "\""

def faultText : Fault → String
  | .unsupportedCall opcode pc =>
    describe "UnsupportedCall" [("opcode", decimal opcode.toNat), ("pc", decimal pc.toNat)]
  | .unknownOpcode opcode pc =>
    describe "UnknownOpcode" [("opcode", decimal opcode.toNat), ("pc", decimal pc.toNat)]
  | .addressOutOfBounds address => describe "AddressOutOfBounds" [("addr", decimal address)]
  | .programTooLarge size limit =>
    describe "ProgramTooLarge" [("size", decimal size), ("max", decimal limit)]
  | .stackOverflow pc => describe "StackOverflow" [("pc", decimal pc.toNat)]
  | .stackUnderflow pc => describe "StackUnderflow" [("pc", decimal pc.toNat)]
  | .halted => "Halted"

/-- What is shown of a failure. -/
def Failure.text : Failure → String
  | .usage => quoted "usage: chip8vm <ROM> [FRAMES]"
  | .frames error => describe "ParseIntError" [("kind", error.text)]
  | .file error =>
    describe "Os" [("code", decimal error.code), ("kind", error.kind),
      ("message", quoted error.description)]
  | .fault f => faultText f

/-- Frames that are run unless a number is given. -/
def defaultFrames : Nat := 600

/-- Runs frames until one faults. -/
def runFrames : Nat → Session → Except Fault Session
  | 0, s => .ok s
  | n + 1, s =>
    let o := s.frame Session.cyclesPerFrame
    match o.result with
    | .error fault => .error fault
    | .ok _ => runFrames n o.state

/-- What the program is asked to do. Further arguments are ignored. -/
def request (args : List String) : Except Failure (String × Nat) :=
  match args with
  | [] => .error .usage
  | [rom] => .ok (rom, defaultFrames)
  | rom :: frames :: _ => ((count? frames.toList).mapError .frames).map ((rom, ·))

/-- The screen after a number of frames in which no key is pressed. -/
def screenAfter (program : List UInt8) (frames : Nat) (entropy : Random.CipherKey) :
    Except Fault Display := do
  let launched := Session.launch program {} entropy none
  launched.result
  let s ← runFrames frames launched.state
  return s.machine.display

/-- Runs the program of a file and answers the lines to print. The request is checked before the
file is looked at. -/
def run (args : List String) (contents : String → Except FileError (List UInt8))
    (entropy : Random.CipherKey) : Except Failure (List String) := do
  let (rom, frames) ← request args
  let program ← (contents rom).mapError .file
  let display ← (screenAfter program frames entropy).mapError .fault
  return display.lines

def exitCode : Except Failure (List String) → UInt8
  | .ok _ => 0
  | .error _ => 1

/-- The lines on the standard output. What is shown of a failure does not go there. -/
def output : Except Failure (List String) → List String
  | .ok lines => lines
  | .error _ => []

def failure? : Except Failure (List String) → Option Failure
  | .ok _ => none
  | .error failure => some failure

end ChipEight.CommandLine
