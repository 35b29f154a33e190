import ChipEight.Config
import ChipEight.Json.Field
import ChipEight.Json.Parser
import ChipEight.Json.Printer

namespace ChipEight.Config

/-- A configuration from the fields of a document. An absent field has its default. -/
def ofFields? (shift seed level : Option Json) : Option Config := do
  let byDefault : Config := {}
  let shiftInPlace ← shift.elim (some byDefault.shiftInPlace) Json.bool?
  let seed ← seed.elim (some byDefault.seed) (Json.nullable Json.count?)
  let logLevel ← level.elim (some byDefault.logLevel) (Json.choice? Log.Level.all Log.Level.name)
  return { shiftInPlace, seed, logLevel }

/-- Objects name the fields and may say more; arrays list them in order and may end early. -/
def ofJson? : Json → Option Config
  | .object ms =>
    if Json.namesAreText ms then do
      ofFields? (← Json.field? "shift_quirk" ms) (← Json.field? "rng_seed" ms)
        (← Json.field? "log_level" ms)
    else none
  | .array vs => if vs.length ≤ 3 then ofFields? vs[0]? vs[1]? vs[2]? else none
  | _ => none

def toJson (c : Config) : Json := .record [
  ("shift_quirk", .bool c.shiftInPlace),
  ("rng_seed", Json.ofOption (fun seed => .ofNat seed.toNat) c.seed),
  ("log_level", .ofString c.logLevel.name)]

def parse (document : String) : Option Config := (Json.parse document).bind ofJson?

def render (c : Config) : String := c.toJson.render

end ChipEight.Config
