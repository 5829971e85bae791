/-
# Asm86.Assembly.Pass -- the two passes over a source

Both passes walk over the same lines with the same steps.  The sizing pass defines
segments and labels and moves the counters.  The encoding pass starts from the snapshot
of the first with all counters at zero, enters the segments again, and writes the bytes.

With `verify` on, the encoding pass checks that every label stands where the first pass
put it, and in the end that every segment has the length it had.  A fault ends a pass at
the line that caused it; a fault that no line caused has the line zero, and a length that
differs is reported at the last line.

`assemble` runs both and hands the snapshot over as a block of bytes.
-/
import Asm86.Assembly.Assembler
import Asm86.Output.Image
import Asm86.Text.Lines

namespace Asm86.Assembly

open Asm86.Text
open Asm86.Machine
open Asm86.Source
open Asm86.Symbols
open Asm86.Output

set_option autoImplicit false

namespace Assembler

/-! ## One line -/

/-- The label must be known and, with `verify`, stand at the counter. -/
def checkLabel (a : Assembler) (verify : Bool) (name : String) : Except AsmError Unit :=
  match a.symbols.currentSegment? with
  | none => .error (.symbol (.labelOutside name))
  | some seg =>
      match a.symbols.labels.find? fun l => l.name == name && l.segment == seg.name with
      | none => .error (.undefinedLabel name)
      | some label =>
          if verify && label.offset != seg.counter then
            .error (.labelDrift name label.offset seg.counter)
          else .ok ()

def defineLabel (phase : Phase) (verify : Bool) (name : String) : AsmM Unit := do
  match phase with
  | .sizing => updateSymbols fun t => t.addLabel name
  | .encoding => ofExcept ((← get).checkLabel verify name)

def startSegment (phase : Phase) (name : String) : AsmM Unit :=
  match phase with
  | .sizing => updateSymbols fun t => t.addSegment name
  | .encoding => updateSymbols fun t => t.enterSegment name

/-- Only the current segment can be ended, and it stays current. -/
def checkEnds (a : Assembler) (name : String) : Except AsmError Unit :=
  if a.symbols.currentSegment?.map Segment.name = some name then .ok ()
  else .error (.unmatchedEnds name)

/-- A source instruction; its lead is an instruction of its own that comes first. -/
def sourceInstruction (phase : Phase) (lead : Option Operation) (op : Operation)
    (operands : List Operand) : AsmM Unit := do
  match lead with
  | some l => instruction phase ⟨l, .none⟩
  | none => pure ()
  let i ← ofExcept (((← get).scope phase).instruction op operands)
  match Scope.segmentOf? operands with
  | some s => setOverride s
  | none => pure ()
  instruction phase i

/-- A statement; `text` is the line it stands on. -/
def statement (phase : Phase) (text : List Char) : Statement → AsmM Unit
  | .empty | .ignored => pure ()
  | .segmentStart name => startSegment phase name
  | .segmentEnd name => do ofExcept ((← get).checkEnds name)
  | .data width items => do
      let bytes ← ofExcept (((← get).scope phase).data width items)
      data phase bytes (String.ofList (trim text))
  | .instruction lead op operands => sourceInstruction phase lead op operands

/-- A line that has been read: its label, then its statement. -/
def parsedLine (phase : Phase) (verify : Bool) (text : List Char) (line : Line) : AsmM Unit := do
  match line.label with
  | some name => defineLabel phase verify name
  | none => pure ()
  statement phase text line.statement

def sourceLine (phase : Phase) (verify : Bool) (text : List Char) : AsmM Unit := do
  let line ← ofExcept ((Line.parse text).mapError .parse)
  parsedLine phase verify text line

/-! ## All lines -/

/-- The line with the given number; its faults carry the number. -/
def numberedLine (phase : Phase) (verify : Bool) (number : Nat) (text : List Char) :
    EStateM LineError Assembler Unit := fun a =>
  match sourceLine phase verify text { a with line := number } with
  | .ok _ after => .ok () after
  | .error e after => .error ⟨number, e⟩ after

/-- The lines from the one with the given number on, up to the first fault. -/
def sourceLines (phase : Phase) (verify : Bool) (number : Nat) :
    List (List Char) → EStateM LineError Assembler Unit
  | [] => pure ()
  | text :: rest => do
      numberedLine phase verify number text
      sourceLines phase verify (number + 1) rest

end Assembler

/-! ## The passes -/

/-- Size a source and collect its symbols. -/
def passOne (source : String) (cfg : Config) : Except LineError Snapshot :=
  match Assembler.sourceLines .sizing false 1 (lines source.toList) (.ofConfig cfg) with
  | .ok _ a => a.symbols.freeze.mapError fun e => ⟨0, .symbol e⟩
  | .error e _ => .error e

/-- Each segment has the length it had in the first pass. -/
def checkLengths : List Segment → List UInt16 → Except AsmError Unit
  | s :: segments, length :: lengths =>
      if s.counter = length then checkLengths segments lengths
      else .error (.phaseMismatch s.name length s.counter)
  | _, _ => .ok ()

/-- Encode a source whose symbols are known.  The assembler in the result shows what was
written, also when the pass failed. -/
def passTwo (source : String) (snapshot : Snapshot) (cfg : Config) (sink : Sink) :
    EStateM.Result LineError Assembler Unit :=
  match snapshot.rebuild with
  | .error e => .error ⟨0, .transfer (.badSnapshot e)⟩ { symbols := {}, sink }
  | .ok rebuilt =>
      let texts := lines source.toList
      let start : Assembler :=
        { symbols := rebuilt.table, sink, rows := if cfg.listing then some #[] else none }
      match Assembler.sourceLines .encoding cfg.verify 1 texts start with
      | .error e a => .error e a
      | .ok _ a =>
          match (if cfg.verify then checkLengths a.symbols.segments rebuilt.lengths else .ok ()) with
          | .error e => .error ⟨texts.length, e⟩ a
          | .ok _ => .ok () a

/-- What a source was assembled to. -/
structure Assembled where
  image : Image
  symbols : Snapshot
  listing : List Row
  deriving DecidableEq, Repr

def Assembler.listing (a : Assembler) : List Row := (a.rows.getD #[]).toList

/-- Assemble a source. -/
def assemble (source : String) (cfg : Config) : Except LineError Assembled := do
  let symbols ← passOne source cfg
  let block ← symbols.toBytes.mapError fun e => ⟨0, .transfer e⟩
  let received ← (Snapshot.ofBytes block).mapError fun e => ⟨0, .transfer e⟩
  match passTwo source received cfg .unlimited with
  | .ok _ a => return { image := ⟨cfg.origin, a.sink.bytes⟩, symbols, listing := a.listing }
  | .error e _ => throw e

end Asm86.Assembly
