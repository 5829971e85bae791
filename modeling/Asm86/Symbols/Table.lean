/-
# Asm86.Symbols.Table -- segments, labels and location counters

Each pass keeps a table of the segments and labels it knows, in the order in which they
were defined.  One segment may be current: code, data and labels go there.  A segment
has its start in the image and a 16-bit location counter; the table has a 32-bit
counter for the image as a whole.

* Labels are scoped: one name may be defined once in each segment.  A reference finds the
  label of the current segment first, then the earliest one anywhere.
* Moving past more than a segment can hold is `segmentOverflow`.  An image address that
  leaves 32 bits is `addressOverflow`; the segment's own limit is looked at first.
-/

namespace Asm86.Symbols

set_option autoImplicit false

structure Segment where
  name : String
  /-- Where the segment starts in the image. -/
  start : UInt32
  /-- The location counter. -/
  counter : UInt16
  deriving DecidableEq, Repr

structure Label where
  name : String
  segment : String
  offset : UInt16
  deriving DecidableEq, Repr

inductive SymbolError where
  | duplicateSegment (name : String)
  | duplicateLabel (label segment : String)
  | labelOutside (label : String)
  | codeOutside
  | unknownSegment (name : String)
  | segmentOverflow (name : String)
  | addressOverflow
  deriving DecidableEq, Repr

def SymbolError.message : SymbolError → String
  | .duplicateSegment name => s!"segment {name} is already defined"
  | .duplicateLabel label segment => s!"label {label} is already defined in segment {segment}"
  | .labelOutside label => s!"label {label} outside of any segment"
  | .codeOutside => "code outside of any segment"
  | .unknownSegment name => s!"segment {name} was not seen in pass one"
  | .segmentOverflow name => s!"segment {name} exceeds 64K"
  | .addressOverflow => "image address exceeds 32 bits"

structure SymbolTable where
  segments : List Segment := []
  labels : List Label := []
  current : Option Nat := none
  imageCounter : UInt32 := 0
  deriving DecidableEq, Repr

/-- The address `offset` bytes after `start`. -/
def addressAt (start : UInt32) (offset : Nat) : Except SymbolError UInt32 :=
  if start.toNat + offset < 4294967296 then .ok (start + UInt32.ofNat offset)
  else .error .addressOverflow

namespace SymbolTable

/-- An empty table whose image starts at `origin`. -/
def ofOrigin (origin : UInt32) : SymbolTable := { imageCounter := origin }

/-- A table with the given contents and no current segment. -/
def ofParts (segments : List Segment) (labels : List Label) : SymbolTable :=
  { segments, labels, imageCounter := (segments.head?.map Segment.start).getD 0 }

/-! ## Looking up -/

def currentSegment? (t : SymbolTable) : Option Segment := t.current.bind fun i => t.segments[i]?

def findSegment? (t : SymbolTable) (name : String) : Option Nat :=
  t.segments.findIdx? fun s => s.name == name

def findLabel? (t : SymbolTable) (name scope : String) : Option Nat :=
  t.labels.findIdx? fun l => l.name == name && l.segment == scope

/-- The label of the current segment with this name. -/
def resolveLocal? (t : SymbolTable) (name : String) : Option Label :=
  t.currentSegment?.bind fun s => t.labels.find? fun l => l.name == name && l.segment == s.name

/-- The label that a reference means. -/
def resolve? (t : SymbolTable) (name : String) : Option Label :=
  (t.resolveLocal? name).or (t.labels.find? fun l => l.name == name)

/-- The image address of a label, when its segment is known. -/
def addressOf? (t : SymbolTable) (l : Label) : Except SymbolError (Option UInt32) :=
  match t.segments.find? fun s => s.name == l.segment with
  | some s => (addressAt s.start l.offset.toNat).map some
  | none => .ok none

/-- The image address of the next byte, when some segment is current. -/
def here? (t : SymbolTable) : Except SymbolError (Option UInt32) :=
  match t.currentSegment? with
  | some s => (addressAt s.start s.counter.toNat).map some
  | none => .ok none

/-! ## Defining and moving -/

/-- Define a segment that starts at the next image address, and make it current. -/
def addSegment (t : SymbolTable) (name : String) : Except SymbolError SymbolTable :=
  if (t.findSegment? name).isSome then .error (.duplicateSegment name)
  else .ok { t with
    segments := t.segments ++ [⟨name, t.imageCounter, 0⟩]
    current := some t.segments.length }

/-- Define a label at the counter of the current segment. -/
def addLabel (t : SymbolTable) (name : String) : Except SymbolError SymbolTable :=
  match t.currentSegment? with
  | none => .error (.labelOutside name)
  | some s =>
      if (t.findLabel? name s.name).isSome then .error (.duplicateLabel name s.name)
      else .ok { t with labels := t.labels ++ [⟨name, s.name, s.counter⟩] }

/-- Make a known segment current; the image counter goes to where it stands. -/
def enterSegment (t : SymbolTable) (name : String) : Except SymbolError SymbolTable :=
  match t.findSegment? name with
  | none => .error (.unknownSegment name)
  | some i =>
      match t.segments[i]? with
      | none => .error (.unknownSegment name)
      | some s => do
          let address ← addressAt s.start s.counter.toNat
          return { t with current := some i, imageCounter := address }

/-- Move the current segment and the image past `len` bytes. -/
def advance (t : SymbolTable) (len : Nat) : Except SymbolError SymbolTable :=
  match t.current, t.currentSegment? with
  | some i, some s =>
      if s.counter.toNat + len < 65536 then do
        let address ← addressAt t.imageCounter len
        let moved := { s with counter := s.counter + UInt16.ofNat len }
        return { t with segments := t.segments.set i moved, imageCounter := address }
      else .error (.segmentOverflow s.name)
  | _, _ => .error .codeOutside

end SymbolTable

end Asm86.Symbols
