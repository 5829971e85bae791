/-
# Asm86.Symbols.Block -- a snapshot as a block of bytes

A block is the number of records in 32 bits and then the records, each of 247 bytes: a
tag (1 for a segment, 2 for a label), the label name and the segment name in fields of
120 bytes, the offset in 16 bits and the address in 32, all words low byte first.  A name
is written in UTF-8 and filled up with zeros, of which there is at least one.

Reading is strict.  A block must have exactly the length that its number of records asks
for, every tag must be known and every name field must hold one name and zeros behind
it.  `ofBytes` reads a whole block; `receive` takes one block off a stream and leaves what
follows it there, also when the block cannot be read, and `read` gives that rest back.
-/
import Asm86.Bytes
import Asm86.Output.Sink
import Asm86.Symbols.Snapshot
import Asm86.Text.Escape

namespace Asm86.Symbols

open Asm86.Output

set_option autoImplicit false

/-- A stream that ends too early or has no more room. -/
inductive StreamFault where
  | endOfInput
  | outputFull
  deriving DecidableEq, Repr

def StreamFault.message : StreamFault → String
  | .endOfInput => "failed to fill whole buffer"
  | .outputFull => "failed to write whole buffer"

inductive TransferError where
  | truncated (size : Nat)
  | badTag (tag : UInt8) (index : Nat)
  | nameTooLong (name : String)
  | badName (index : Nat)
  | trailing (extra : Nat)
  | badSnapshot (e : SnapshotError)
  | stream (fault : StreamFault)
  deriving DecidableEq, Repr

def TransferError.message : TransferError → String
  | .truncated size => s!"transfer block truncated at byte {size}"
  | .badTag tag index => s!"bad record tag {Text.hexLower 2 tag.toNat} in record {index}"
  | .nameTooLong name => s!"name {Text.shown name} does not fit a transfer record"
  | .badName index => s!"record {index} holds a malformed name"
  | .trailing extra => s!"{extra} trailing bytes after transfer block"
  | .badSnapshot (.outOfOrder index) => s!"segment record {index} follows a label record"
  | .badSnapshot (.unknownSegment label segment) =>
      s!"label {label} names unknown segment {segment}"
  | .stream fault => "transfer i/o: " ++ fault.message

def nameFieldSize : Nat := 120

def recordSize : Nat := 1 + 2 * nameFieldSize + 2 + 4

/-! ## Writing -/

def SymbolKind.tag : SymbolKind → UInt8
  | .segment => 1
  | .label => 2

/-- A name field; the name leaves room for a zero and holds none. -/
def encodeName (name : String) : Except TransferError (List UInt8) :=
  let bytes := Bytes.ofString name
  if nameFieldSize ≤ bytes.length || bytes.contains 0 then .error (.nameTooLong name)
  else .ok (bytes ++ List.replicate (nameFieldSize - bytes.length) 0)

def Symbol.encode (r : Symbol) : Except TransferError (List UInt8) := do
  let label ← encodeName r.label
  let segment ← encodeName r.segment
  return r.kind.tag :: label ++ segment ++ Bytes.ofWord r.offset ++ Bytes.ofDword r.address

namespace Snapshot

def toBytes (s : Snapshot) : Except TransferError (List UInt8) := do
  let records ← s.mapM Symbol.encode
  return Bytes.ofDword (UInt32.ofNat s.length) ++ records.flatten

/-- Write the block to a sink. -/
def write (s : Snapshot) (sink : Sink) : Except TransferError Sink := do
  let bytes ← s.toBytes
  match sink.emit bytes with
  | (after, none) => return after
  | (_, some _) => throw (.stream .outputFull)

end Snapshot

/-! ## Reading -/

def SymbolKind.ofTag? (tag : UInt8) : Option SymbolKind :=
  if tag == 1 then some .segment else if tag == 2 then some .label else none

/-- The name in a field: what stands before the first zero, with only zeros behind it. -/
def decodeName (index : Nat) (field : List UInt8) : Except TransferError String :=
  let fill := field.dropWhile fun b => b != 0
  if fill.isEmpty || fill.any fun b => b != 0 then .error (.badName index)
  else
    match Bytes.toString? (field.takeWhile fun b => b != 0) with
    | some name => .ok name
    | none => .error (.badName index)

/-- The record in exactly `recordSize` bytes. -/
def decodeRecord (index : Nat) : List UInt8 → Except TransferError Symbol
  | [] => .error (.truncated 0)
  | tag :: fields =>
      match SymbolKind.ofTag? tag with
      | none => .error (.badTag tag index)
      | some kind => do
          let label ← decodeName index (fields.take nameFieldSize)
          let segment ← decodeName index ((fields.drop nameFieldSize).take nameFieldSize)
          match fields.drop (2 * nameFieldSize) with
          | [o0, o1, a0, a1, a2, a3] =>
              return ⟨kind, label, segment, Bytes.toWord o0 o1, Bytes.toDword a0 a1 a2 a3⟩
          | _ => throw (.truncated (fields.length + 1))

/-- So many records, the first with the given index. -/
def decodeRecords (index : Nat) : Nat → List UInt8 → Except TransferError Snapshot
  | 0, _ => .ok []
  | count + 1, bytes => do
      let first ← decodeRecord index (bytes.take recordSize)
      let others ← decodeRecords (index + 1) count (bytes.drop recordSize)
      return first :: others

/-- Take the first `n` bytes off a stream, or all that it still has. -/
def takeBytes (n : Nat) : EStateM TransferError (List UInt8) (List UInt8) :=
  fun stream => .ok (stream.take n) (stream.drop n)

namespace Snapshot

/-- Read a whole block. -/
def ofBytes : List UInt8 → Except TransferError Snapshot
  | b0 :: b1 :: b2 :: b3 :: body =>
      let count := (Bytes.toDword b0 b1 b2 b3).toNat
      let needed := count * recordSize
      if body.length < needed then .error (.truncated (body.length + 4))
      else if needed < body.length then .error (.trailing (body.length - needed))
      else do
        let s ← decodeRecords 0 count body
        match checkOrder false 0 s with
        | .ok () => return s
        | .error e => throw (.badSnapshot e)
  | short => .error (.truncated short.length)

/-- Take one block off the front of a stream.  The number of records is not trusted: no more is
taken than the stream holds. -/
def receive : EStateM TransferError (List UInt8) Snapshot := do
  let head ← takeBytes 4
  match head with
  | [b0, b1, b2, b3] =>
      let needed := (Bytes.toDword b0 b1 b2 b3).toNat * recordSize
      let body ← takeBytes needed
      if body.length < needed then throw (.truncated (head.length + body.length))
      else ofExcept (ofBytes (head ++ body))
  | _ => throw (.stream .endOfInput)

/-- Read the block at the front of a stream; the result holds the rest of the stream. -/
def read (stream : List UInt8) : Except TransferError (Snapshot × List UInt8) :=
  match receive stream with
  | .ok s rest => .ok (s, rest)
  | .error e _ => .error e

end Snapshot

end Asm86.Symbols
