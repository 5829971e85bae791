/-
# Asm86.Symbols.Export -- a snapshot as JSON

The records of a snapshot as an indented JSON document, for other programs to read: two
blanks for each level, one field a line, no line feed at the end.
-/
import Asm86.Symbols.Snapshot
import Asm86.Text.Escape

namespace Asm86.Symbols

open Asm86.Text

set_option autoImplicit false

def SymbolKind.name : SymbolKind → String
  | .segment => "Segment"
  | .label => "Label"

def Symbol.toJson (r : Symbol) : String :=
  "    \x7b\n" ++
    "      \"kind\": " ++ jsonString r.kind.name ++ ",\n" ++
    "      \"label\": " ++ jsonString r.label ++ ",\n" ++
    "      \"segment\": " ++ jsonString r.segment ++ ",\n" ++
    "      \"local\": " ++ toString r.offset.toNat ++ ",\n" ++
    "      \"global\": " ++ toString r.address.toNat ++ "\n" ++
    "    \x7d"

def Snapshot.toJson (s : Snapshot) : String :=
  let records :=
    if s.isEmpty then "[]" else "[\n" ++ String.intercalate ",\n" (s.map Symbol.toJson) ++ "\n  ]"
  "\x7b\n  \"symbols\": " ++ records ++ "\n\x7d"

end Asm86.Symbols
