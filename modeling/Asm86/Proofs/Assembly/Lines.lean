/-
# Asm86.Proofs.Assembly.Lines -- what each line adds to the image

`lineBytes` cuts the image of an assembled source into the parts that its lines wrote.  The
segment of a line is the one that the last segment bracket before it opened
(`openSegment`): an end bracket leaves its segment open.

`FirstPass.line` shows both passes at any one line: where they stand, how many bytes lie
before the line, and which part of the image is the line's own.
-/
import Asm86.Proofs.Assembly.Agreement

namespace Asm86.Assembly

open Asm86.Checked
open Asm86.Text
open Asm86.Machine
open Asm86.Source
open Asm86.Symbols
open Asm86.Output

set_option autoImplicit false

/-! ## The parts of the image -/

/-- What each of the lines adds to the sink, up to the first fault. -/
def Assembler.chunks (verify : Bool) (number : Nat) :
    List (List Char) → Assembler → List (List UInt8)
  | [], _ => []
  | text :: rest, a =>
      match numberedLine .encoding verify number text a with
      | .ok _ b => b.sink.bytes.toList.drop a.sink.bytes.size :: chunks verify (number + 1) rest b
      | .error .. => []

/-- What each line of a source adds to the image in the second pass. -/
def lineBytes (source : String) (symbols : Snapshot) (cfg : Config) : List (List UInt8) :=
  match symbols.rebuild with
  | .ok rebuilt =>
      Assembler.chunks cfg.verify 1 (lines source.toList)
        { symbols := rebuilt.table, rows := if cfg.listing then some #[] else none }
  | .error _ => []

/-! ## The segment of a line -/

/-- The open segment after a statement, from the one before it. -/
def segmentAfter (before : Option String) : Statement → Option String
  | .segmentStart name => some name
  | _ => before

/-- The open segment after a line. -/
def opened (before : Option String) (text : List Char) : Option String :=
  match Line.parse text with
  | .ok line => segmentAfter before line.statement
  | .error _ => before

/-- The segment that is open after all these lines. -/
def openSegment (texts : List (List Char)) : Option String := texts.foldl opened none

namespace Assembler

/-- The name of the current segment. -/
def segment? (a : Assembler) : Option String := a.symbols.currentSegment?.map Segment.name

/-- Moving the counters keeps the current segment and the labels. -/
theorem advance_frame {t u : SymbolTable} {len : Nat} (moved : t.advance len = .ok u) :
    u.currentSegment?.map Segment.name = t.currentSegment?.map Segment.name ∧
      u.labels = t.labels := by
  obtain ⟨s, before, after⟩ := SymbolTable.currentSegment?_advance moved
  obtain ⟨i, s', address, -, -, -, -, rfl⟩ := SymbolTable.advance_ok.1 moved
  exact ⟨by rw [before, after]; rfl, rfl⟩

theorem instruction_frame {i : Instruction} {a b : Assembler}
    (done : instruction .sizing i a = .ok () b) :
    b.segment? = a.segment? ∧ b.symbols.labels = a.symbols.labels ∧ b.pending = none := by
  obtain ⟨layout, t, -, moved, rfl⟩ := instruction_sizing_ok.1 done
  obtain ⟨segment, labels⟩ := advance_frame moved
  exact ⟨segment, labels, rfl⟩

/-- Only a segment bracket changes the current segment, only a label the labels, and an
override never outlives its line. -/
theorem statement_frame {text : List Char} {st : Statement} {a b : Assembler}
    (done : statement .sizing text st a = .ok () b) (idle : a.pending = none) :
    b.segment? = segmentAfter a.segment? st ∧
      b.symbols.labels = a.symbols.labels ∧ b.pending = none := by
  cases st with
  | empty =>
      cases done
      exact ⟨rfl, rfl, idle⟩
  | ignored =>
      cases done
      exact ⟨rfl, rfl, idle⟩
  | segmentStart name =>
      obtain ⟨t, added, rfl⟩ := segmentStart_sizing_ok.1 done
      obtain ⟨-, rfl⟩ := SymbolTable.addSegment_ok added
      exact ⟨by simp [segment?, segmentAfter, SymbolTable.currentSegment?], rfl, idle⟩
  | segmentEnd name =>
      obtain ⟨-, rfl⟩ := segmentEnd_ok.1 done
      exact ⟨rfl, rfl, idle⟩
  | data width items =>
      obtain ⟨bytes, -, done⟩ := dataStatement_ok.1 done
      obtain ⟨t, moved, rfl⟩ := data_sizing_ok.1 done
      obtain ⟨segment, labels⟩ := advance_frame moved
      exact ⟨segment, labels, idle⟩
  | instruction lead op operands =>
      obtain ⟨c, o, led, -, done⟩ := sourceInstruction_ok.1 done
      obtain ⟨segment, labels, idle'⟩ := instruction_frame done
      cases lead with
      | none =>
          cases led
          exact ⟨segment, labels, idle'⟩
      | some l =>
          obtain ⟨segment', labels', -⟩ := instruction_frame led
          exact ⟨segment.trans segment', labels.trans labels', idle'⟩

theorem defineLabel_frame {verify : Bool} {name : String} {a b : Assembler}
    (done : defineLabel .sizing verify name a = .ok () b) :
    ∃ s, a.symbols.currentSegment? = some s ∧ b.segment? = a.segment? ∧ b.pending = a.pending ∧
      b.symbols.labels = a.symbols.labels ++ [⟨name, s.name, s.counter⟩] := by
  obtain ⟨t, added, rfl⟩ := defineLabel_sizing_ok.1 done
  obtain ⟨s, current, -, rfl⟩ := SymbolTable.addLabel_ok added
  exact ⟨s, current, rfl, rfl, rfl⟩

theorem numberedLine_frame {verify : Bool} {number : Nat} {text : List Char} {a b : Assembler}
    (done : numberedLine .sizing verify number text a = .ok () b) (idle : a.pending = none) :
    b.segment? = opened a.segment? text ∧ b.pending = none ∧
      ∃ line, Line.parse text = .ok line ∧
        match line.label with
        | none => b.symbols.labels = a.symbols.labels
        | some name => ∃ s, a.symbols.currentSegment? = some s ∧
            b.symbols.labels = a.symbols.labels ++ [⟨name, s.name, s.counter⟩] := by
  obtain ⟨⟨label, st⟩, read, done⟩ := numberedLine_ok.1 done
  obtain ⟨c, labelled, done⟩ := parsedLine_ok.1 done
  have opens : opened a.segment? text = segmentAfter a.segment? st := by
    unfold opened
    rw [read]
  rw [opens]
  cases label with
  | none =>
      cases labelled
      obtain ⟨segment, labels, idle'⟩ := statement_frame done idle
      exact ⟨segment, idle', _, read, labels⟩
  | some name =>
      obtain ⟨s, current, same, stays, added⟩ := defineLabel_frame labelled
      obtain ⟨segment, labels, idle'⟩ := statement_frame done (stays.trans idle)
      have before : c.segment? = a.segment? := same
      rw [before] at segment
      exact ⟨segment, idle', _, read, s, current, labels.trans added⟩

/-! ## One line among many -/

/-- Both passes at one line: before it and after it. -/
structure AtLine (origin : Nat) (final : SymbolTable) (verify : Bool) (number : Nat)
    (text : List Char) (a a' b b' : Assembler) : Prop where
  before : Replays origin final a b
  after : Replays origin final a' b'
  idle : a.pending = none
  later : a'.symbols.Extends final
  sized : numberedLine .sizing false number text a = .ok () a'
  encoded : numberedLine .encoding verify number text b = .ok () b'

theorem afterWriting_bytes (a : Assembler) (t : SymbolTable) (bytes : List UInt8) (text : String) :
    (a.afterWriting t bytes text).sink.bytes.toList = a.sink.bytes.toList ++ bytes := by
  rw [afterWriting_sink, Array.toList_appendList]

/-- The bytes come behind what the sink held, and there is room for everything. -/
def Appends (bytes : List UInt8) (before after : Sink) : Prop :=
  after.capacity = none ∧ after.bytes.toList = before.bytes.toList ++ bytes

theorem instruction_appends {i : Instruction} {b b' : Assembler}
    (done : instruction .encoding i b = .ok () b') (unlimited : b.sink.capacity = none) :
    ∃ layout, Encoding.plan i b.pending = .ok layout ∧ Appends layout.bytes b.sink b'.sink := by
  obtain ⟨layout, t, planned, -, rfl⟩ := (instruction_encoding_ok unlimited).1 done
  exact ⟨layout, planned, unlimited, afterWriting_bytes ..⟩

theorem data_appends {bytes : List UInt8} {text : String} {b b' : Assembler}
    (done : data .encoding bytes text b = .ok () b') (unlimited : b.sink.capacity = none) :
    Appends bytes b.sink b'.sink := by
  obtain ⟨t, -, rfl⟩ := (data_encoding_ok unlimited).1 done
  exact ⟨unlimited, afterWriting_bytes ..⟩

theorem Appends.trans {first second : List UInt8} {a b c : Sink} (one : Appends first a b)
    (two : Appends second b c) : Appends (first ++ second) a c :=
  ⟨two.1, by rw [two.2, one.2, List.append_assoc]⟩

/-- Data writes its items, an instruction something, and all else nothing. -/
def Writes (b : Assembler) : Statement → List UInt8 → Prop
  | .data width items, bytes => (b.scope .encoding).data width items = .ok bytes
  | .instruction .., _ => True
  | _, bytes => bytes = []

/-- What a statement writes comes behind what was written before. -/
theorem statement_appends {text : List Char} {st : Statement} {b b' : Assembler}
    (done : statement .encoding text st b = .ok () b') (unlimited : b.sink.capacity = none) :
    ∃ bytes, Writes b st bytes ∧ Appends bytes b.sink b'.sink := by
  cases st with
  | empty =>
      cases done
      exact ⟨[], rfl, unlimited, (List.append_nil _).symm⟩
  | ignored =>
      cases done
      exact ⟨[], rfl, unlimited, (List.append_nil _).symm⟩
  | segmentStart name =>
      obtain ⟨t, -, rfl⟩ := segmentStart_encoding_ok.1 done
      exact ⟨[], rfl, unlimited, (List.append_nil _).symm⟩
  | segmentEnd name =>
      obtain ⟨-, rfl⟩ := segmentEnd_ok.1 done
      exact ⟨[], rfl, unlimited, (List.append_nil _).symm⟩
  | data width items =>
      obtain ⟨bytes, found, done⟩ := dataStatement_ok.1 done
      exact ⟨bytes, found, data_appends done unlimited⟩
  | instruction lead op operands =>
      obtain ⟨c, o, led, -, main⟩ := sourceInstruction_ok.1 done
      cases lead with
      | none =>
          cases led
          obtain ⟨layout, -, written⟩ := instruction_appends main unlimited
          exact ⟨layout.bytes, trivial, written⟩
      | some l =>
          obtain ⟨first, -, before⟩ := instruction_appends led unlimited
          obtain ⟨layout, -, written⟩ := instruction_appends main before.1
          exact ⟨first.bytes ++ layout.bytes, trivial, before.trans written⟩

theorem numberedLine_appends {verify : Bool} {number : Nat} {text : List Char} {b b' : Assembler}
    (done : numberedLine .encoding verify number text b = .ok () b')
    (unlimited : b.sink.capacity = none) : ∃ bytes, Appends bytes b.sink b'.sink := by
  obtain ⟨⟨label, st⟩, -, done⟩ := numberedLine_ok.1 done
  obtain ⟨c, labelled, done⟩ := parsedLine_ok.1 done
  cases label with
  | none =>
      cases labelled
      obtain ⟨bytes, -, written⟩ := statement_appends done unlimited
      exact ⟨bytes, written⟩
  | some name =>
      obtain ⟨-, rfl⟩ := defineLabel_encoding_ok.1 labelled
      obtain ⟨bytes, -, written⟩ := statement_appends done unlimited
      exact ⟨bytes, written⟩

theorem Appends.chunk_eq {bytes : List UInt8} {a b : Sink} (written : Appends bytes a b) :
    b.bytes.toList.drop a.bytes.size = bytes := by
  rw [written.2, ← Array.length_toList, List.drop_left]

/-- The chunks are what the lines have written, one for each line. -/
theorem chunks_flatten {verify : Bool} {number : Nat} {texts : List (List Char)} {b b' : Assembler}
    (done : sourceLines .encoding verify number texts b = .ok () b')
    (unlimited : b.sink.capacity = none) :
    (chunks verify number texts b).length = texts.length ∧
      Appends (chunks verify number texts b).flatten b.sink b'.sink := by
  induction texts generalizing number b with
  | nil =>
      cases done
      exact ⟨rfl, unlimited, (List.append_nil _).symm⟩
  | cons text rest ih =>
      obtain ⟨c, first, done⟩ := sourceLines_cons_ok.1 done
      obtain ⟨bytes, written⟩ := numberedLine_appends first unlimited
      obtain ⟨length, others⟩ := ih done written.1
      rw [chunks, first]
      refine ⟨congrArg (· + 1) length, ?_⟩
      rw [List.flatten_cons, written.chunk_eq]
      exact written.trans others

/-- Both passes at the statement of a line, behind its label. -/
theorem AtLine.statement {origin : Nat} {final : SymbolTable} {verify : Bool} {number : Nat}
    {text : List Char} {c c' d d' : Assembler} {line : Line}
    (atLine : AtLine origin final verify number text c c' d d') (read : Line.parse text = .ok line) :
    ∃ a b, Replays origin final a b ∧ a.pending = none ∧ a.segment? = c.segment? ∧
      b.sink = d.sink ∧ b.rows = d.rows ∧ b.line = number ∧
      Assembler.statement .sizing text line.statement a = .ok () c' ∧
      Assembler.statement .encoding text line.statement b = .ok () d' := by
  obtain ⟨line', read', sized⟩ := numberedLine_ok.1 atLine.sized
  cases read.symm.trans read'
  obtain ⟨line', read', encoded⟩ := numberedLine_ok.1 atLine.encoded
  cases read.symm.trans read'
  obtain ⟨a, labelled, sized⟩ := parsedLine_ok.1 sized
  obtain ⟨b, checked, encoded⟩ := parsedLine_ok.1 encoded
  have start : Replays origin final { c with line := number } { d with line := number } :=
    ⟨atLine.before.table, atLine.before.sized, atLine.before.pending, atLine.before.unlimited,
      atLine.before.written⟩
  obtain ⟨label, st⟩ := line
  cases label with
  | none =>
      cases labelled
      cases checked
      exact ⟨_, _, start, atLine.idle, rfl, rfl, rfl, rfl, sized, encoded⟩
  | some name =>
      obtain ⟨s, -, same, stays, -⟩ := defineLabel_frame labelled
      obtain ⟨t, added, rfl⟩ := defineLabel_sizing_ok.1 labelled
      obtain ⟨-, rfl⟩ := defineLabel_encoding_ok.1 checked
      have grown := (statement_grows sized).extends.trans atLine.later
      exact ⟨_, _, (start.label added grown).2, stays.trans atLine.idle, same, rfl, rfl, rfl, sized,
        encoded⟩

/-- Both passes at the line with a given index, from where they start. -/
theorem Replays.line {origin : Nat} {final : SymbolTable} {verify : Bool} {number : Nat}
    {texts : List (List Char)} {a a' b b' : Assembler} (replays : Replays origin final a b)
    (sized : final.Sized origin) (idle : a.pending = none)
    (done : Assembler.sourceLines .sizing false number texts a = .ok () a')
    (later : a'.symbols.Extends final)
    (run : Assembler.sourceLines .encoding verify number texts b = .ok () b') {n : Nat} {text : List Char}
    (there : texts[n]? = some text) :
    ∃ c c' d d', AtLine origin final verify (number + n) text c c' d d' ∧
      c.segment? = (texts.take n).foldl opened a.segment? ∧
      d.sink.bytes.size =
        b.sink.bytes.size + ((chunks verify number texts b).take n).flatten.length ∧
      (chunks verify number texts b)[n]? = some (d'.sink.bytes.toList.drop d.sink.bytes.size) := by
  induction texts generalizing number a b n with
  | nil => simp at there
  | cons first rest ih =>
      obtain ⟨c, firstSized, restSized⟩ := sourceLines_cons_ok.1 done
      obtain ⟨d, firstRun, restRun⟩ := sourceLines_cons_ok.1 run
      have grown := (sourceLines_grows restSized).extends.trans later
      have next : Replays origin final c d := by
        have yields := (replays.numberedLine sized firstSized grown verify).2
        rw [firstRun] at yields
        exact yields
      obtain ⟨segment, idle', -⟩ := numberedLine_frame firstSized idle
      obtain ⟨bytes, written⟩ := numberedLine_appends firstRun replays.unlimited
      rw [chunks, firstRun]
      cases n with
      | zero =>
          cases there
          exact ⟨a, c, b, d, ⟨replays, next, idle, grown, firstSized, firstRun⟩, rfl, rfl, rfl⟩
      | succ n =>
          obtain ⟨e, e', f, f', at_, own, size, part⟩ := ih next idle' restSized restRun there
          refine ⟨e, e', f, f', ?_, ?_, ?_, ?_⟩
          · rwa [Nat.add_right_comm, Nat.add_assoc] at at_
          · rw [own, segment, List.take_succ_cons, List.foldl_cons]
          · have grew : d.sink.bytes.size = b.sink.bytes.size + bytes.length := by
              rw [← Array.length_toList, written.2, List.length_append, Array.length_toList]
            rw [size, grew, List.take_succ_cons, List.flatten_cons, List.length_append,
              written.chunk_eq]
            omega
          · simpa using part

end Assembler

/-! ## The lines of an assembled source -/

variable {source : String} {cfg : Config} {last b : Assembler} {snapshot : Snapshot}

theorem FirstPass.lineBytes_eq (first : FirstPass source cfg last snapshot) :
    lineBytes source snapshot cfg =
      Assembler.chunks cfg.verify 1 (lines source.toList) (encodingStart last.symbols cfg) := by
  unfold lineBytes
  rw [SymbolTable.rebuild_freeze first.sized.owned first.frozen]
  rfl

theorem FirstPass.run (first : FirstPass source cfg last snapshot)
    (done : encoded source last.symbols cfg = .ok () b) :
    Assembler.sourceLines .encoding cfg.verify 1 (lines source.toList)
      (encodingStart last.symbols cfg) = .ok () b := by
  have start := replays_encodingStart last.symbols cfg
  rw [(start.sourceLines first.sized first.done (.refl _) cfg.verify).1]
  exact done

/-- The parts that the lines write are the image. -/
theorem FirstPass.flatten_lineBytes (first : FirstPass source cfg last snapshot)
    (done : encoded source last.symbols cfg = .ok () b) :
    (lineBytes source snapshot cfg).length = (lines source.toList).length ∧
      (lineBytes source snapshot cfg).flatten = b.sink.bytes.toList := by
  rw [first.lineBytes_eq]
  obtain ⟨length, -, written⟩ := Assembler.chunks_flatten (first.run done) rfl
  exact ⟨length, written.symm⟩

/-- Both passes at one line of an assembled source. -/
theorem FirstPass.line (first : FirstPass source cfg last snapshot)
    (done : encoded source last.symbols cfg = .ok () b) {n : Nat} {text : List Char}
    (there : (lines source.toList)[n]? = some text) :
    ∃ c c' d d', Assembler.AtLine cfg.origin.toNat last.symbols cfg.verify (1 + n) text c c' d d' ∧
      c.segment? = openSegment ((lines source.toList).take n) ∧
      d.sink.bytes.size = ((lineBytes source snapshot cfg).take n).flatten.length ∧
      (lineBytes source snapshot cfg)[n]? =
        some (d'.sink.bytes.toList.drop d.sink.bytes.size) := by
  have start := replays_encodingStart last.symbols cfg
  obtain ⟨c, c', d, d', atLine, own, size, part⟩ :=
    start.line first.sized rfl first.done (.refl _) (first.run done) there
  rw [first.lineBytes_eq]
  refine ⟨c, c', d, d', atLine, own, ?_, part⟩
  rw [size]
  exact Nat.zero_add _

end Asm86.Assembly
