/-
# Asm86.Assembly.Assembler -- the state of a pass and its elementary steps

An assembler carries the symbol table, a segment override that waits for the next
instruction, the number of the current line, the sink and the rows of the listing.  Its
steps may fail, and what they did before they failed stays done: `AsmM` keeps the state
on errors.

* Planning an instruction uses up the pending override, also when it fails.
* Encoding moves the counters first and then writes, so bytes that the sink had no room
  for are counted all the same.
* Both phases move the counters by the size of the same layout.
-/
import Asm86.Assembly.Scope
import Asm86.Output.Listing

namespace Asm86.Assembly

open Asm86.Machine
open Asm86.Encoding
open Asm86.Symbols
open Asm86.Output

set_option autoImplicit false

/-- What a user may choose. -/
structure Config where
  /-- The image address of the first byte. -/
  origin : UInt32 := 0
  /-- Keep a listing. -/
  listing : Bool := false
  /-- Compare the counters of the second pass with those of the first. -/
  verify : Bool := true
  deriving DecidableEq, Repr

structure Assembler where
  symbols : SymbolTable
  pending : Option SegReg := none
  line : Nat := 0
  sink : Sink := .unlimited
  /-- The rows so far, when a listing is kept. -/
  rows : Option (Array Row) := none
  deriving DecidableEq, Repr

/-- Steps of an assembler; a failed step keeps the state that it reached. -/
abbrev AsmM := EStateM AsmError Assembler

namespace Assembler

def ofConfig (cfg : Config) : Assembler := { symbols := .ofOrigin cfg.origin }

def scope (a : Assembler) (phase : Phase) : Scope := ⟨a.symbols, phase⟩

/-- A computation that does not touch the state. -/
def ofExcept {α : Type} (x : Except AsmError α) : AsmM α := fun a =>
  match x with
  | .ok v => .ok v a
  | .error e => .error e a

/-- Replace the symbol table, unless that fails. -/
def updateSymbols (f : SymbolTable → Except SymbolError SymbolTable) : AsmM Unit := fun a =>
  match f a.symbols with
  | .ok symbols => .ok () { a with symbols }
  | .error e => .error (.symbol e) a

/-- Use the segment for the next instruction. -/
def setOverride (s : SegReg) : AsmM Unit := fun a => .ok () { a with pending := some s }

/-- The layout of an instruction under the pending override, which is used up. -/
def plan (i : Instruction) : AsmM Layout := fun a =>
  match Encoding.plan i a.pending with
  | .ok layout => .ok layout { a with pending := none }
  | .error e => .error (.encode e) { a with pending := none }

def advance (len : Nat) : AsmM Unit := updateSymbols fun t => t.advance len

/-- Write bytes to the sink. -/
def emit (bytes : List UInt8) : AsmM Unit := fun a =>
  match a.sink.emit bytes with
  | (sink, none) => .ok () { a with sink }
  | (sink, some fault) => .error (.sink fault) { a with sink }

/-- The row of a statement whose bytes have just been counted. -/
def rowOf (a : Assembler) (bytes : List UInt8) (text : String) : Row :=
  match a.symbols.currentSegment? with
  | some s => ⟨a.line, s.name, s.counter - UInt16.ofNat bytes.length, bytes, text⟩
  | none => ⟨a.line, "", 0, bytes, text⟩

/-- Add a row to the listing, if one is kept. -/
def record (bytes : List UInt8) (text : String) : AsmM Unit := fun a =>
  let row := a.rowOf bytes text
  .ok () { a with rows := a.rows.map fun rows => rows.push row }

/-! ## Instructions -/

/-- The size of an instruction under the pending override, which is used up. -/
def size (i : Instruction) : AsmM Nat := do
  let layout ← plan i
  return layout.size

/-- Count an instruction. -/
def sizeInstruction (i : Instruction) : AsmM Nat := do
  let layout ← plan i
  advance layout.size
  return layout.size

/-- Count an instruction and write it. -/
def encodeInstruction (i : Instruction) : AsmM Layout := do
  let layout ← plan i
  advance layout.size
  emit layout.bytes
  return layout

def instruction (phase : Phase) (i : Instruction) : AsmM Unit := do
  match phase with
  | .sizing => let _ ← sizeInstruction i
  | .encoding =>
      let layout ← encodeInstruction i
      record layout.bytes i.text

/-! ## Data -/

/-- Count the bytes of a data statement.  More than a segment can hold never fit,
whether or not a segment is current. -/
def advanceData (bytes : List UInt8) : AsmM Unit := fun a =>
  if bytes.length < 65536 then advance bytes.length a
  else .error (.symbol (.segmentOverflow ((a.symbols.currentSegment?.map Segment.name).getD ""))) a

/-- Count the bytes of a data statement and write them. -/
def emitData (bytes : List UInt8) : AsmM Unit := do
  advanceData bytes
  emit bytes

def data (phase : Phase) (bytes : List UInt8) (text : String) : AsmM Unit := do
  match phase with
  | .sizing => advanceData bytes
  | .encoding =>
      emitData bytes
      record bytes text

/-! ## Handing over -/

/-- The symbols of a table after a journey as a block of bytes. -/
def transfer (t : SymbolTable) : Except AsmError Rebuilt := do
  let frozen ← t.freeze.mapError .symbol
  let block ← frozen.toBytes.mapError .transfer
  let received ← (Snapshot.ofBytes block).mapError .transfer
  received.rebuild.mapError fun e => .transfer (.badSnapshot e)

/-- Start again from the transferred symbols, as a second pass does; the result is the
lengths that its segments have to reach. -/
def handOver : AsmM (List UInt16) := fun a =>
  match transfer a.symbols with
  | .ok rebuilt => .ok rebuilt.lengths { a with symbols := rebuilt.table, pending := none, line := 0 }
  | .error e => .error e a

end Assembler

end Asm86.Assembly
