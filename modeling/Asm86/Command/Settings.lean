/-
# Asm86.Command.Settings -- the settings file

Settings are a JSON object with the fields `origin`, `listing` and `verify_phases`, or an
array of their values in this order.  What is not given has its default.

* Each field has a text as its name.  Other fields than these are ignored, and their values
  need no more than the form of JSON.
* A field given twice, and a value of another kind or beyond 32 bits, is refused.
-/
import Asm86.Assembly.Assembler
import Asm86.Command.Json

namespace Asm86.Command

open Asm86.Assembly

set_option autoImplicit false

namespace Settings

def origin? : Json → Option UInt32
  | .natural n => if n < 4294967296 then some (UInt32.ofNat n) else none
  | _ => none

def flag? : Json → Option Bool
  | .bool b => some b
  | _ => none

/-- The fields with their names, if all names are texts. -/
def named? (fields : List (Option String × Json)) : Option (List (String × Json)) :=
  fields.mapM fun field => field.1.map fun name => (name, field.2)

/-- At most one value for each known field. -/
def unique (fields : List (String × Json)) : Bool :=
  ["origin", "listing", "verify_phases"].all fun name =>
    (fields.filter fun field => field.1 == name).length ≤ 1

def setField (cfg : Config) (field : String × Json) : Option Config :=
  if field.1 == "origin" then (origin? field.2).map fun origin => { cfg with origin }
  else if field.1 == "listing" then (flag? field.2).map fun listing => { cfg with listing }
  else if field.1 == "verify_phases" then (flag? field.2).map fun verify => { cfg with verify }
  else some cfg

def ofJson? : Json → Option Config
  | .object fields => do
      let fields ← named? fields
      if unique fields then fields.foldlM setField {} else none
  | .array items =>
      if items.length ≤ 3 then
        (["origin", "listing", "verify_phases"].zip items).foldlM setField {}
      else none
  | _ => none

def parse (text : String) : Option Config := (Json.parse text).bind ofJson?

end Settings

end Asm86.Command
