/-
# Asm86.Proofs.Assembly.Verified -- what a verified second pass shows

The second pass may be given any snapshot: of another source, with names twice in it, or with
offsets that nothing supports.  When `verify` is on and the pass comes to its end, the snapshot
was right about all that the pass met (`passTwo_verified`).  Every label stands where its record
says, and every segment has got as many bytes as its record says, whatever the sink.

`sinkParts` cuts what the sink was given into the parts of the lines, and `bytesInto` counts those
that went to one segment.  Each line writes its part and moves the counter of the segment that
is open before it (`numberedLine_wrote`), and so do all lines together (`sourceLines_wrote`).
-/
import Asm86.Proofs.Assembly.Lines
import Asm86.Proofs.Symbols.Counted

namespace Asm86.Assembly

open Asm86.Checked
open Asm86.Text
open Asm86.Machine
open Asm86.Source
open Asm86.Symbols
open Asm86.Output

set_option autoImplicit false

/-- What each line of a source gives to the sink in the second pass. -/
def sinkParts (source : String) (snapshot : Snapshot) (cfg : Config) (sink : Sink) :
    List (List UInt8) :=
  match snapshot.rebuild with
  | .ok rebuilt =>
      Assembler.chunks cfg.verify 1 (lines source.toList)
        { symbols := rebuilt.table, sink, rows := if cfg.listing then some #[] else none }
  | .error _ => []

/-- How many bytes the lines put into the segment at `k`, from the segment open before them. -/
def bytesInto (s : Snapshot) (k : Nat) : Option String → List (List Char) → List (List UInt8) → Nat
  | before, text :: texts, part :: parts =>
      s.share before part.length k + bytesInto s k (opened before text) texts parts
  | _, _, _ => 0

namespace Assembler

variable {s : Snapshot} {labels : List Label} {before : Option String} {count : Nat → Nat}
  {total : Nat} {a b : Assembler}

/-- The part came behind what the sink `x` held, and the segment that was open before has got
it. -/
structure Wrote (s : Snapshot) (labels : List Label) (before after : Option String)
    (count : Nat → Nat) (total : Nat) (x : Sink) (b : Assembler) (part : List UInt8) : Prop where
  bytes : b.sink.bytes.toList = x.bytes.toList ++ part
  counted : Counted s labels after (fun k => count k + s.share before part.length k)
    (total + part.length) b.symbols

namespace Wrote

variable {after : Option String} {x : Sink}

theorem nothing (counted : Counted s labels after count total b.symbols) :
    Wrote s labels before after count total b.sink b [] := by
  refine ⟨(List.append_nil _).symm, ?_⟩
  simpa [Snapshot.share_zero] using counted

theorem trans {first second : List UInt8}
    (one : Wrote s labels before before count total x a first)
    (two : Wrote s labels before after (fun k => count k + s.share before first.length k)
      (total + first.length) a.sink b second) :
    Wrote s labels before after count total x b (first ++ second) := by
  refine ⟨by rw [two.bytes, one.bytes, List.append_assoc], ?_⟩
  simpa [Snapshot.share_add, Nat.add_assoc] using two.counted

end Wrote

/-! ## One line -/

theorem instruction_wrote {i : Instruction} (done : instruction .encoding i a = .ok () b)
    (counted : Counted s labels before count total a.symbols) :
    ∃ part, Wrote s labels before before count total a.sink b part := by
  obtain ⟨layout, t, -, moved, rfl⟩ := instruction_encodes done
  rw [← layout.length_bytes] at moved
  exact ⟨layout.bytes, afterWriting_bytes .., counted.advance moved⟩

/-- What a statement writes goes to the segment that is open before it. -/
theorem statement_wrote {text : List Char} {st : Statement}
    (done : statement .encoding text st a = .ok () b)
    (counted : Counted s labels before count total a.symbols) :
    ∃ part, Wrote s labels before (segmentAfter before st) count total a.sink b part := by
  cases st with
  | empty =>
      cases done
      exact ⟨[], .nothing counted⟩
  | ignored =>
      cases done
      exact ⟨[], .nothing counted⟩
  | segmentStart name =>
      obtain ⟨t, entered, rfl⟩ := segmentStart_encoding_ok.1 done
      exact ⟨[], .nothing (b := { a with symbols := t }) (counted.enter entered)⟩
  | segmentEnd name =>
      obtain ⟨-, rfl⟩ := segmentEnd_ok.1 done
      exact ⟨[], .nothing counted⟩
  | data width items =>
      obtain ⟨bytes, -, done⟩ := dataStatement_ok.1 done
      obtain ⟨t, moved, rfl⟩ := data_encodes done
      exact ⟨bytes, afterWriting_bytes .., counted.advance moved⟩
  | instruction lead op operands =>
      obtain ⟨c, o, led, -, main⟩ := sourceInstruction_ok.1 done
      cases lead with
      | none =>
          cases led
          obtain ⟨part, wrote⟩ := instruction_wrote main counted
          exact ⟨part, wrote⟩
      | some l =>
          obtain ⟨first, one⟩ := instruction_wrote led counted
          obtain ⟨second, two⟩ := instruction_wrote main one.counted
          exact ⟨first ++ second, one.trans two⟩

/-- The record of a label that passes its check is the first of this name and segment, and it
says how many bytes the segment has got. -/
def Recorded (s : Snapshot) (labels : List Label) (before : Option String) (count : Nat → Nat)
    (name : String) : Prop :=
  ∃ g k l, before = some g ∧ s.segmentIndex? g = some k ∧
    (labels.find? fun l => l.name == name && l.segment == g) = some l ∧ l.offset.toNat = count k

theorem checkLabel_recorded {name : String} (checked : a.checkLabel true name = .ok ())
    (counted : Counted s labels before count total a.symbols) :
    Recorded s labels before count name := by
  unfold checkLabel at checked
  split at checked
  · cases checked
  rename_i seg current
  split at checked
  · cases checked
  rename_i label found
  split at checked
  · cases checked
  rename_i stays
  obtain ⟨k, own, index, counter⟩ := counted.currentSegment?_name current
  rw [counted.labels] at found
  have same : label.offset = seg.counter := by simpa using stays
  exact ⟨seg.name, k, label, own, index, found, by rw [same, counter]⟩

theorem numberedLine_wrote {number : Nat} {text : List Char}
    (done : numberedLine .encoding true number text a = .ok () b)
    (counted : Counted s labels before count total a.symbols) :
    ∃ part, Wrote s labels before (opened before text) count total a.sink b part ∧
      ∀ line name, Line.parse text = .ok line → line.label = some name →
        Recorded s labels before count name := by
  obtain ⟨⟨label, st⟩, read, done⟩ := numberedLine_ok.1 done
  obtain ⟨c, labelled, done⟩ := parsedLine_ok.1 done
  have opens : opened before text = segmentAfter before st := by
    unfold opened
    rw [read]
  rw [opens]
  cases label with
  | none =>
      cases labelled
      obtain ⟨part, wrote⟩ := statement_wrote done counted
      refine ⟨part, wrote, fun line name same named => ?_⟩
      cases read.symm.trans same
      cases named
  | some defined =>
      obtain ⟨checked, rfl⟩ := defineLabel_encoding_ok.1 labelled
      obtain ⟨part, wrote⟩ := statement_wrote done counted
      refine ⟨part, wrote, fun line name same named => ?_⟩
      cases read.symm.trans same
      cases named
      exact checkLabel_recorded checked counted

/-! ## All lines -/

/-- **What a verified run shows**, line by line from any standing. -/
theorem sourceLines_wrote {number : Nat} {texts : List (List Char)}
    (done : sourceLines .encoding true number texts a = .ok () b)
    (counted : Counted s labels before count total a.symbols) :
    (chunks true number texts a).length = texts.length ∧
      b.sink.bytes.toList = a.sink.bytes.toList ++ (chunks true number texts a).flatten ∧
      Counted s labels (texts.foldl opened before)
        (fun k => count k + bytesInto s k before texts (chunks true number texts a))
        (total + (chunks true number texts a).flatten.length) b.symbols ∧
      ∀ (n : Nat) (text : List Char) (line : Line) (name : String), texts[n]? = some text →
        Line.parse text = .ok line → line.label = some name →
        Recorded s labels ((texts.take n).foldl opened before)
          (fun k => count k + bytesInto s k before (texts.take n) (chunks true number texts a)) name := by
  induction texts generalizing number a before count total with
  | nil =>
      cases done
      refine ⟨rfl, (List.append_nil _).symm, counted, fun n text line name there => ?_⟩
      simp at there
  | cons text rest ih =>
      obtain ⟨c, first, done⟩ := sourceLines_cons_ok.1 done
      obtain ⟨part, wrote, labelled⟩ := numberedLine_wrote first counted
      obtain ⟨length, bytes, last, others⟩ := ih done wrote.counted
      have chunk : c.sink.bytes.toList.drop a.sink.bytes.size = part := by
        rw [wrote.bytes, ← Array.length_toList, List.drop_left]
      rw [chunks, first]
      simp only [chunk]
      refine ⟨congrArg (· + 1) length, ?_, ?_, ?_⟩
      · rw [bytes, wrote.bytes, List.flatten_cons, List.append_assoc]
      · simpa [bytesInto, Nat.add_assoc] using last
      · intro n other line name there read named
        cases n with
        | zero =>
            cases there
            exact labelled line name read named
        | succ n =>
            have later := others n other line name there read named
            simpa [bytesInto, Nat.add_assoc] using later

end Assembler

/-! ## The pass as a whole -/

theorem checkLengths_ok {segments : List Segment} {lengths : List UInt16}
    (same : segments.length = lengths.length) (checked : checkLengths segments lengths = .ok ()) :
    segments.map Segment.counter = lengths := by
  induction segments generalizing lengths with
  | nil => exact (List.eq_nil_of_length_eq_zero same.symm).symm
  | cons s rest ih =>
      cases lengths with
      | nil => cases same
      | cons length others =>
          unfold checkLengths at checked
          split at checked
          · rename_i equal
            rw [List.map_cons, equal, ih (Nat.succ.inj same) checked]
          · cases checked

/-- Counters that pass the last check have reached the lengths of the records. -/
theorem counted_lengths {s : Snapshot} {labels : List Label} {before : Option String}
    {count : Nat → Nat} {total : Nat} {t : SymbolTable}
    (counted : Counted s labels before count total t)
    (checked : checkLengths t.segments s.lengths = .ok ()) :
    (∀ (k : Nat) (r : Symbol), s.segmentRecords[k]? = some r → count k = r.offset.toNat) ∧
      total = (s.segmentRecords.map fun r => r.offset.toNat).sum := by
  have reached : t.segments.map Segment.counter = s.segmentRecords.map Symbol.offset := by
    refine checkLengths_ok ?_ checked
    have sizes := congrArg List.length counted.names
    simpa [Snapshot.lengths, Snapshot.segmentRecords] using sizes
  constructor
  · intro k r there
    have counter : (t.segments.map Segment.counter)[k]? = some r.offset := by
      rw [reached, List.getElem?_map, there]
      rfl
    rw [List.getElem?_map, Option.map_eq_some_iff] at counter
    obtain ⟨seg, found, same⟩ := counter
    rw [← counted.counters k seg found, same]
  · have counters := congrArg (List.map UInt16.toNat) reached
    rw [List.map_map, List.map_map] at counters
    rw [← counted.total]
    exact congrArg List.sum counters

theorem passTwo_ok {source : String} {snapshot : Snapshot} {cfg : Config} {sink : Sink}
    {a : Assembler} (done : passTwo source snapshot cfg sink = .ok () a) :
    ∃ rebuilt, snapshot.rebuild = .ok rebuilt ∧
      Assembler.sourceLines .encoding cfg.verify 1 (lines source.toList)
        { symbols := rebuilt.table, sink, rows := if cfg.listing then some #[] else none } =
          .ok () a ∧
      (cfg.verify = true → checkLengths a.symbols.segments rebuilt.lengths = .ok ()) := by
  unfold passTwo at done
  split at done
  · cases done
  rename_i rebuilt known
  simp only at done
  split at done
  · cases done
  rename_i b run
  split at done
  · cases done
  rename_i checked
  cases done
  refine ⟨rebuilt, known, run, fun verify => ?_⟩
  rwa [if_pos verify] at checked

/-- **A verified second pass proves its snapshot.**  If it comes to its end, then each label of
the source stands where the first record of this name and segment says, each segment has got as
many bytes as its record says, and all of them together are what the sink was given. -/
theorem passTwo_verified {source : String} {snapshot : Snapshot} {cfg : Config} {sink : Sink}
    {a : Assembler} (verify : cfg.verify = true)
    (done : passTwo source snapshot cfg sink = .ok () a) :
    (sinkParts source snapshot cfg sink).length = (lines source.toList).length ∧
      a.sink.bytes.toList =
        sink.bytes.toList ++ (sinkParts source snapshot cfg sink).flatten ∧
      (∀ (n : Nat) (text : List Char) (line : Line) (name : String),
        (lines source.toList)[n]? = some text → Line.parse text = .ok line →
        line.label = some name →
        ∃ g k r, openSegment ((lines source.toList).take n) = some g ∧
          snapshot.segmentIndex? g = some k ∧
          (snapshot.labelRecords.find? fun r => r.label == name && r.segment == g) = some r ∧
          r.offset.toNat = bytesInto snapshot k none ((lines source.toList).take n)
            (sinkParts source snapshot cfg sink)) ∧
      (∀ (k : Nat) (r : Symbol), snapshot.segmentRecords[k]? = some r →
        bytesInto snapshot k none (lines source.toList) (sinkParts source snapshot cfg sink) =
          r.offset.toNat) ∧
      (sinkParts source snapshot cfg sink).flatten.length =
        (snapshot.segmentRecords.map fun r => r.offset.toNat).sum := by
  obtain ⟨rebuilt, known, run, lengths⟩ := passTwo_ok done
  cases Snapshot.rebuild_ok known
  rw [verify] at run
  have parts : sinkParts source snapshot cfg sink =
      Assembler.chunks true 1 (lines source.toList)
        { symbols := SymbolTable.ofParts snapshot.segments (snapshot.labelRecords.map Symbol.toLabel),
          sink, rows := if cfg.listing then some #[] else none } := by
    simp only [sinkParts, known, verify]
  obtain ⟨length, bytes, last, labelled⟩ :=
    Assembler.sourceLines_wrote run (Snapshot.counted_ofParts snapshot _)
  rw [← parts] at length bytes last labelled
  simp only [Nat.zero_add] at last labelled
  obtain ⟨segments, sum⟩ := counted_lengths last (lengths verify)
  refine ⟨length, bytes, ?_, segments, sum⟩
  intro n text line name there read named
  obtain ⟨g, k, l, own, index, found, offset⟩ := labelled n text line name there read named
  rw [List.find?_map, Option.map_eq_some_iff] at found
  obtain ⟨r, first, rfl⟩ := found
  exact ⟨g, k, r, own, index, first, offset⟩

/-- A source that opens a segment twice. -/
def reentering : String := "C SEGMENT\nL: HLT\nD SEGMENT\n DW L\nC SEGMENT\nM: HLT"

/-- Records that no first pass hands over: a segment and a label twice, and addresses from
nowhere. -/
def stale : Snapshot :=
  [⟨.segment, "", "C", 2, 100⟩, ⟨.segment, "", "D", 2, 7⟩, ⟨.segment, "", "C", 0, 5⟩,
    ⟨.label, "L", "C", 0, 1⟩, ⟨.label, "M", "C", 1, 0⟩, ⟨.label, "L", "C", 9, 0⟩]

/-- Into a sink that has room for one more byte than comes. -/
theorem passTwo_verified_reentering :
    ∃ a, passTwo reentering stale {} { bytes := #[7], capacity := some 6 } = .ok () a ∧
      a.sink.bytes = #[7, 0xF4, 0, 0, 0xF4] ∧
      (∃ k, stale.segmentIndex? "C" = some k ∧
        1 = bytesInto stale k none ((lines reentering.toList).take 5)
          (sinkParts reentering stale {} { bytes := #[7], capacity := some 6 })) ∧
      bytesInto stale 2 none (lines reentering.toList)
        (sinkParts reentering stale {} { bytes := #[7], capacity := some 6 }) = 0 ∧
      (sinkParts reentering stale {} { bytes := #[7], capacity := some 6 }).flatten.length = 4 := by
  have done : passTwo reentering stale {} { bytes := #[7], capacity := some 6 } =
      .ok () { symbols :=
                { segments := [⟨"C", 100, 2⟩, ⟨"D", 7, 2⟩, ⟨"C", 5, 0⟩]
                  labels := [⟨"L", "C", 0⟩, ⟨"M", "C", 1⟩, ⟨"L", "C", 9⟩]
                  current := some 0
                  imageCounter := 102 }
               line := 6
               sink := { bytes := #[7, 0xF4, 0, 0, 0xF4], capacity := some 6 } } := by
    decide +kernel
  obtain ⟨-, -, labels, segments, total⟩ := passTwo_verified rfl done
  obtain ⟨g, k, r, own, index, found, offset⟩ :=
    labels 5 "M: HLT".toList ⟨some "M", .instruction none .hlt []⟩ "M" (by decide +kernel)
      (by decide +kernel) rfl
  have here : openSegment ((lines reentering.toList).take 5) = some "C" := by decide +kernel
  cases own.symm.trans here
  cases found
  exact ⟨_, done, rfl, ⟨k, index, offset⟩, segments 2 _ rfl, total⟩

end Asm86.Assembly
