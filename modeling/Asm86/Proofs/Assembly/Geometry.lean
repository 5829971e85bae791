/-
# Asm86.Proofs.Assembly.Geometry -- where the segments and labels of an image lie

The symbols that come with an image describe it exactly, although they were counted before
any byte was written: the segments fill the image in their order and without gaps, and
every label stands where the lines before its own line have brought the image
(`image_geometry`).
-/
import Asm86.Proofs.Assembly.Lines
import Asm86.Proofs.Symbols.Records

namespace Asm86.Assembly

open Asm86.Checked
open Asm86.Text
open Asm86.Source
open Asm86.Symbols

set_option autoImplicit false

/-- The line with this index defines the label of the record. -/
def Defines (texts : List (List Char)) (n : Nat) (r : Symbol) : Prop :=
  ∃ text line, texts[n]? = some text ∧ Line.parse text = .ok line ∧ line.label = some r.label ∧
    openSegment (texts.take n) = some r.segment

namespace Assembler

/-- Every label of the sizing pass was there at the start or has a line that defines it. -/
theorem sourceLines_labels {number : Nat} {texts : List (List Char)} {a a' : Assembler}
    (done : sourceLines .sizing false number texts a = .ok () a') (idle : a.pending = none)
    {l : Label} (member : l ∈ a'.symbols.labels) :
    l ∈ a.symbols.labels ∨
      ∃ n text line, texts[n]? = some text ∧ Line.parse text = .ok line ∧
        line.label = some l.name ∧ (texts.take n).foldl opened a.segment? = some l.segment := by
  induction texts generalizing number a with
  | nil =>
      cases done
      exact .inl member
  | cons text rest ih =>
      obtain ⟨c, first, done⟩ := sourceLines_cons_ok.1 done
      obtain ⟨segment, idle', line, read, labels⟩ := numberedLine_frame first idle
      rcases ih done idle' with old | ⟨n, text', line', there, read', name, own⟩
      · cases label : line.label with
        | none =>
            rw [label] at labels
            exact .inl (labels ▸ old)
        | some name =>
            rw [label] at labels
            obtain ⟨s, current, labels⟩ := labels
            rw [labels] at old
            rcases List.mem_append.1 old with older | new
            · exact .inl older
            · cases List.mem_singleton.1 new
              refine .inr ⟨0, text, line, rfl, read, label, ?_⟩
              simp [segment?, current]
      · refine .inr ⟨n + 1, text', line', there, read', name, ?_⟩
        rw [List.take_succ_cons, List.foldl_cons, ← segment]
        exact own

/-- A label that a line defines gets the address that the image has reached. -/
theorem AtLine.label {origin : Nat} {final : SymbolTable} {verify : Bool} {number : Nat}
    {text : List Char} {c c' d d' : Assembler} {line : Line} {name : String}
    (atLine : AtLine origin final verify number text c c' d d') (sized : final.Sized origin)
    (read : Line.parse text = .ok line) (label : line.label = some name) :
    ∃ s, c.symbols.currentSegment? = some s ∧ ⟨name, s.name, s.counter⟩ ∈ final.labels ∧
      ∀ seg ∈ final.segments, seg.name = s.name →
        seg.start.toNat + s.counter.toNat = origin + d.sink.bytes.size := by
  obtain ⟨-, -, line', read', labels⟩ := numberedLine_frame atLine.sized atLine.idle
  cases read.symm.trans read'
  rw [label] at labels
  obtain ⟨s, current, labels⟩ := labels
  refine ⟨s, current, ?_, ?_⟩
  · refine atLine.later.labels.subset ?_
    rw [labels]
    exact List.mem_append_right _ (List.mem_singleton_self _)
  · intro seg known same
    have early := (numberedLine_grows atLine.sized).extends.trans atLine.later
    obtain ⟨seg', known', name, start⟩ := early.segment (SymbolTable.currentSegment?_mem current)
    have unique : seg' = seg :=
      List.inj_on_of_nodup_map sized.segmentNames known' known (name.trans same.symm)
    rw [← unique, start, ← atLine.before.written]
    exact (atLine.before.sized.imageCounter_eq current).symm

end Assembler

variable {source : String} {cfg : Config} {last b : Assembler} {snapshot : Snapshot}

/-- Every label record has a line that defines its label. -/
theorem FirstPass.exists_defines (first : FirstPass source cfg last snapshot) {r : Symbol}
    (member : r ∈ snapshot.labelRecords) : ∃ n, Defines (lines source.toList) n r := by
  obtain ⟨l, known, recorded, -⟩ := SymbolTable.label_of_record first.sized first.frozen member
  obtain ⟨-, -, -, -, name, segment, -, -⟩ :=
    SymbolTable.labelSymbol_sized first.sized known recorded
  rcases Assembler.sourceLines_labels first.done rfl known with old | ⟨n, text, line, found⟩
  · exact absurd old List.not_mem_nil
  · refine ⟨n, text, line, ?_⟩
    rw [name, segment]
    exact found

/-- The bytes before the line that defines a label end at the label's address. -/
theorem FirstPass.address_of_defines (first : FirstPass source cfg last snapshot)
    (done : encoded source last.symbols cfg = .ok () b) {r : Symbol}
    (member : r ∈ snapshot.labelRecords) {n : Nat} (defined : Defines (lines source.toList) n r) :
    r.address.toNat =
      cfg.origin.toNat + ((lineBytes source snapshot cfg).take n).flatten.length := by
  obtain ⟨l, known, recorded, -⟩ := SymbolTable.label_of_record first.sized first.frozen member
  obtain ⟨seg, there, inSegment, -, name, segment, -, place⟩ :=
    SymbolTable.labelSymbol_sized first.sized known recorded
  obtain ⟨text, line, found, read, labelled, opens⟩ := defined
  obtain ⟨c, c', d, d', atLine, own, size, -⟩ := first.line done found
  obtain ⟨s, current, put, reached⟩ := atLine.label first.sized read labelled
  have here : s.name = r.segment := by
    have both := own.trans opens
    simpa [Assembler.segment?, current] using both
  -- A segment has one label of a name, so the record is of the label put here.
  have same : l = ⟨r.label, s.name, s.counter⟩ :=
    List.inj_on_of_nodup_map first.sized.labelKeys known put
      (Prod.ext name.symm (segment.symm.trans here.symm))
  have offset : l.offset = s.counter := congrArg Label.offset same
  rw [place, offset, reached seg there (inSegment.trans (segment.symm.trans here.symm)), size]

/-- **Image geometry.**  The segments fill the image from its origin on, one behind the other,
and every label lies in its segment, at the address that the lines before the one that defines
it have brought the image to. -/
theorem image_geometry {out : Assembled} (done : assemble source cfg = .ok out) :
    out.image.base = cfg.origin ∧
      (∀ r ∈ out.symbols.segmentRecords.head?, r.address = cfg.origin) ∧
      (out.symbols.segmentRecords.IsChain fun r r' =>
        r'.address.toNat = r.address.toNat + r.offset.toNat) ∧
      out.image.bytes.size = (out.symbols.segmentRecords.map fun r => r.offset.toNat).sum ∧
      (lineBytes source out.symbols cfg).length = (lines source.toList).length ∧
      (lineBytes source out.symbols cfg).flatten = out.image.bytes.toList ∧
      ∀ r ∈ out.symbols.labelRecords,
        (∃ seg ∈ out.symbols.segmentRecords, seg.segment = r.segment ∧ r.offset ≤ seg.offset ∧
          r.address.toNat = seg.address.toNat + r.offset.toNat) ∧
        (∃ n, Defines (lines source.toList) n r) ∧
        ∀ n, Defines (lines source.toList) n r →
          r.address.toNat =
            cfg.origin.toNat + ((lineBytes source out.symbols cfg).take n).flatten.length := by
  obtain ⟨last, b, first, run, whole⟩ := assemble_ok done
  have replays := first.encoded_yields
  rw [run] at replays
  obtain ⟨length, parts⟩ := first.flatten_lineBytes run
  have image : out.image = ⟨cfg.origin, b.sink.bytes⟩ := congrArg Assembled.image whole
  rw [image]
  refine ⟨rfl, ?_, SymbolTable.segmentRecords_chain first.sized first.frozen, ?_, length, parts, ?_⟩
  · intro r head
    exact UInt32.toNat_inj.1 (SymbolTable.segmentRecords_head first.sized first.frozen r head)
  · have counted := SymbolTable.segmentRecords_sum first.sized first.frozen
    rw [replays.written] at counted
    exact Nat.add_left_cancel counted
  · intro r member
    obtain ⟨-, -, -, inside⟩ := SymbolTable.label_of_record first.sized first.frozen member
    exact ⟨inside, first.exists_defines member,
      fun n defined => first.address_of_defines run member defined⟩

/-- Two segments, with a label of the same name in each. -/
def twoSegments : String := "C SEGMENT\n JMP N\nN: HLT\nD SEGMENT\n DB 7\nN: DW N"

theorem image_geometry_two_segments :
    ∃ out, assemble twoSegments { origin := 256 } = .ok out ∧
      out.image.bytes = #[0xE9, 0, 0, 0xF4, 7, 1, 0] ∧
      out.symbols.labelRecords = [⟨.label, "N", "C", 3, 259⟩, ⟨.label, "N", "D", 1, 261⟩] ∧
      ∀ r ∈ out.symbols.labelRecords, ∃ n, Defines (lines twoSegments.toList) n r ∧
        r.address.toNat =
          256 + ((lineBytes twoSegments out.symbols { origin := 256 }).take n).flatten.length := by
  have done : assemble twoSegments { origin := 256 } =
      .ok ⟨⟨256, #[0xE9, 0, 0, 0xF4, 7, 1, 0]⟩,
        [⟨.segment, "", "C", 4, 256⟩, ⟨.segment, "", "D", 3, 260⟩,
          ⟨.label, "N", "C", 3, 259⟩, ⟨.label, "N", "D", 1, 261⟩], []⟩ := by decide +kernel
  refine ⟨_, done, rfl, rfl, fun r member => ?_⟩
  obtain ⟨-, ⟨n, defined⟩, address⟩ := (image_geometry done).2.2.2.2.2.2 r member
  exact ⟨n, defined, address n defined⟩

end Asm86.Assembly
