import ChipEight.Json.Field
import ChipEight.Json.Parser
import ChipEight.Json.Printer
import ChipEight.Snapshot

namespace ChipEight.Snapshot

def byte? (v : Json) : Option UInt8 := (v.natural? UInt8.size).map (·.toUInt8)

def word? (v : Json) : Option UInt16 := (v.natural? UInt16.size).map (·.toUInt16)

/-- A snapshot from the values of its fields. -/
def ofValues? (registers stack stackPointer pc index delay sound key : Json) :
    Option Snapshot := do
  return {
    registers := ← registers.vector? 16 byte?
    stack := ← stack.vector? 16 word?
    stackPointer := ← stackPointer.nullable Json.count?
    pc := ← word? pc
    index := ← word? index
    delay := ← byte? delay
    sound := ← byte? sound
    key := ← key.nullable (Json.choice? Key.all Key.name) }

/-- Objects name the fields and may say more; only the stack pointer and the key may be absent,
which is the same as null. Arrays list all fields in order. -/
def ofJson? : Json → Option Snapshot
  | .object ms =>
    if Json.namesAreText ms then do
      ofValues? (← ← Json.field? "registers" ms) (← ← Json.field? "stack" ms)
        ((← Json.field? "stack_pointer" ms).getD .null) (← ← Json.field? "pc" ms)
        (← ← Json.field? "i" ms) (← ← Json.field? "delay_timer" ms)
        (← ← Json.field? "sound_timer" ms) ((← Json.field? "key" ms).getD .null)
    else none
  | .array [registers, stack, stackPointer, pc, index, delay, sound, key] =>
    ofValues? registers stack stackPointer pc index delay sound key
  | _ => none

def toJson (s : Snapshot) : Json := .record [
  ("registers", .array (s.registers.toList.map fun byte => .ofNat byte.toNat)),
  ("stack", .array (s.stack.toList.map fun word => .ofNat word.toNat)),
  ("stack_pointer", Json.ofOption (fun slot => .ofNat slot.toNat) s.stackPointer),
  ("pc", .ofNat s.pc.toNat),
  ("i", .ofNat s.index.toNat),
  ("delay_timer", .ofNat s.delay.toNat),
  ("sound_timer", .ofNat s.sound.toNat),
  ("key", Json.ofOption (fun key => .ofString key.name) s.key)]

def parse (document : String) : Option Snapshot := (Json.parse document).bind ofJson?

def render (s : Snapshot) : String := s.toJson.render

end ChipEight.Snapshot
