/-
# Asm86.Proofs.Assembly.Listing -- the rows of a listing cover the image

A row is made after its bytes have been counted: its offset is the counter moved back by the
number of bytes.  `Covers` says of a part of the second pass that the rows it adds show exactly
the bytes it writes, and that each row names a segment and an offset that meet the place which
the image had reached.  It holds of every statement, a lead included, and goes over to
sequences, so it holds of the pass (`Replays.covers`).

Together with the lines of the rows this is `listing_covers_image`.  That a listing is kept
makes no difference to what is assembled (`assemble_unlisted`).
-/
import Asm86.Proofs.Assembly.Lines
import Asm86.Proofs.Assembly.Rows
import Asm86.Proofs.Symbols.Records

namespace Asm86.Source

set_option autoImplicit false

/-- The statement stands for bytes, if only for none of them. -/
def Statement.isCode : Statement → Bool
  | .data .. | .instruction .. => true
  | _ => false

end Asm86.Source

namespace Asm86.Assembly

open Asm86.Checked
open Asm86.Text
open Asm86.Machine
open Asm86.Source
open Asm86.Symbols
open Asm86.Output

set_option autoImplicit false

/-- Rows of which each stands where those before it end, the first at `n` bytes behind the
origin. -/
def Placed (origin : Nat) (segments : List Segment) : Nat → List Row → Prop
  | _, [] => True
  | n, r :: rest =>
      (∃ seg ∈ segments, seg.name = r.segment ∧ seg.start.toNat + r.offset.toNat = origin + n) ∧
        Placed origin segments (n + r.bytes.length) rest

theorem placed_append {origin n : Nat} {segments : List Segment} {rows rows' : List Row} :
    Placed origin segments n (rows ++ rows') ↔
      Placed origin segments n rows ∧
        Placed origin segments (n + (rows.flatMap Row.bytes).length) rows' := by
  induction rows generalizing n with
  | nil => simp [Placed]
  | cons r rest ih =>
      simp only [List.cons_append, Placed, ih, List.flatMap_cons, List.length_append, and_assoc,
        Nat.add_assoc]

/-- The line with this index has a statement that stands for bytes. -/
def CodeLine (texts : List (List Char)) (n : Nat) : Prop :=
  ∃ text line, texts[n]? = some text ∧ Line.parse text = .ok line ∧ line.statement.isCode = true

theorem codeLine_zero {text : List Char} {rest : List (List Char)} {line : Line}
    (read : Line.parse text = .ok line) :
    CodeLine (text :: rest) 0 ↔ line.statement.isCode = true := by
  constructor
  · rintro ⟨_, line', ⟨⟩, read', code⟩
    cases read.symm.trans read'
    exact code
  · exact fun code => ⟨text, line, rfl, read, code⟩

theorem codeLine_succ {text : List Char} {rest : List (List Char)} {n : Nat} :
    CodeLine (text :: rest) (n + 1) ↔ CodeLine rest n := Iff.rfl

namespace Assembler

/-! ## One write -/

/-- The rows show what is written on the way from `b` to `b'`, each at its place. -/
structure Covers (origin : Nat) (final : SymbolTable) (rows : List Row) (b b' : Assembler) :
    Prop where
  listed : b'.rows = b.rows.map fun (old : Array Row) => old ++ rows
  written : b'.sink.bytes.toList = b.sink.bytes.toList ++ rows.flatMap Row.bytes
  placed : Placed origin final.segments b.sink.bytes.size rows

variable {origin : Nat} {final : SymbolTable} {a a' b b' c : Assembler}

/-- Where neither output changes there is nothing to cover. -/
theorem covers_nil (rows : b'.rows = b.rows) (sink : b'.sink = b.sink) :
    Covers origin final [] b b' where
  listed := by simp [rows]
  written := by simp [sink]
  placed := trivial

theorem Covers.trans {rows rows' : List Row} (first : Covers origin final rows b c)
    (second : Covers origin final rows' c b') : Covers origin final (rows ++ rows') b b' where
  listed := by
    rw [second.listed, first.listed, Option.map_map]
    exact congrArg (fun f => b.rows.map f) (funext fun old => Array.ext' (by simp))
  written := by
    rw [second.written, first.written, List.flatMap_append, List.append_assoc]
  placed := by
    have reached : c.sink.bytes.size = b.sink.bytes.size + (rows.flatMap Row.bytes).length := by
      rw [← Array.length_toList, first.written, List.length_append, Array.length_toList]
    refine placed_append.2 ⟨first.placed, ?_⟩
    rw [← reached]
    exact second.placed

/-- The row of bytes that have just been counted stands where the counter stood before. -/
theorem rowOf_advance {t : SymbolTable} {bytes : List UInt8} {s : Segment}
    (moved : b.symbols.advance bytes.length = .ok t) (current : b.symbols.currentSegment? = some s)
    (text : String) :
    ({ b with symbols := t, sink := { b.sink with bytes := b.sink.bytes ++ bytes } } :
      Assembler).rowOf bytes text = ⟨b.line, s.name, s.counter, bytes, text⟩ := by
  obtain ⟨s', before, after⟩ := SymbolTable.currentSegment?_advance moved
  cases current.symm.trans before
  simp only [rowOf, after]
  rw [UInt16.add_sub_cancel]

theorem Replays.covers_afterWriting {t : SymbolTable} {bytes : List UInt8}
    (replays : Replays origin final a b) (later : a.symbols.Extends final)
    (moved : b.symbols.advance bytes.length = .ok t) (text : String) :
    ∃ r, r.line = b.line ∧ Covers origin final [r] b (b.afterWriting t bytes text) := by
  obtain ⟨s, current, -⟩ := SymbolTable.currentSegment?_advance moved
  have row := rowOf_advance moved current text
  have here : a.symbols.currentSegment? = some s := replays.currentSegment?_eq.symm.trans current
  have reached := (replays.sized.imageCounter_eq here).symm.trans replays.written
  obtain ⟨seg, known, name, start⟩ := later.segment (SymbolTable.currentSegment?_mem here)
  refine ⟨⟨b.line, s.name, s.counter, bytes, text⟩, rfl, ?_, ?_, ⟨seg, known, name, ?_⟩, trivial⟩
  · simp only [afterWriting, row]
    exact congrArg (fun f => b.rows.map f) (funext fun old => Array.ext' (by simp))
  · rw [afterWriting_bytes]
    simp
  · rw [start]
    exact reached

/-! ## Statements -/

theorem Replays.covers_instruction {i : Instruction} (replays : Replays origin final a b)
    (later : a.symbols.Extends final) (pending : Option SegReg)
    (done : Assembler.instruction .encoding i { b with pending } = .ok () b') :
    ∃ r, r.line = b.line ∧ b'.line = b.line ∧ Covers origin final [r] b b' := by
  obtain ⟨layout, t, -, moved, rfl⟩ := instruction_encodes done
  rw [← layout.length_bytes] at moved
  obtain ⟨r, line, covers⟩ :=
    (replays.withPending none).covers_afterWriting later moved i.text
  exact ⟨r, line, rfl, covers.listed, covers.written, covers.placed⟩

/-- A statement lists what it writes, on its own line: data one row, an instruction one row and
another for its lead, and all else none. -/
theorem Replays.covers_statement {text : List Char} {st : Statement}
    (replays : Replays origin final a b)
    (sized : Assembler.statement .sizing text st a = .ok () a') (later : a'.symbols.Extends final)
    (done : Assembler.statement .encoding text st b = .ok () b') :
    ∃ rows, Covers origin final rows b b' ∧ (∀ r ∈ rows, r.line = b.line) ∧
      (rows ≠ [] ↔ st.isCode = true) := by
  have early : a.symbols.Extends final := (statement_grows sized).extends.trans later
  cases st with
  | empty =>
      cases done
      exact ⟨[], covers_nil rfl rfl, by simp, by simp [Statement.isCode]⟩
  | ignored =>
      cases done
      exact ⟨[], covers_nil rfl rfl, by simp, by simp [Statement.isCode]⟩
  | segmentStart name =>
      obtain ⟨t, -, rfl⟩ := segmentStart_encoding_ok.1 done
      exact ⟨[], covers_nil rfl rfl, by simp, by simp [Statement.isCode]⟩
  | segmentEnd name =>
      obtain ⟨-, rfl⟩ := segmentEnd_ok.1 done
      exact ⟨[], covers_nil rfl rfl, by simp, by simp [Statement.isCode]⟩
  | data width items =>
      obtain ⟨bytes, -, done⟩ := dataStatement_ok.1 done
      obtain ⟨t, moved, rfl⟩ := data_encodes done
      obtain ⟨r, line, covers⟩ := replays.covers_afterWriting early moved _
      exact ⟨[r], covers, by simpa using line, by simp [Statement.isCode]⟩
  | instruction lead op operands =>
      obtain ⟨c, o', ledSized, -, mainSized⟩ := sourceInstruction_ok.1 sized
      obtain ⟨d, o, led, -, main⟩ := sourceInstruction_ok.1 done
      cases lead with
      | none =>
          cases led
          obtain ⟨r, line, -, covers⟩ := replays.covers_instruction early _ main
          exact ⟨[r], covers, by simpa using line, by simp [Statement.isCode]⟩
      | some l =>
          -- The sizing pass has counted the lead before the instruction, too.
          obtain ⟨d', led', next⟩ := replays.instruction rfl ledSized
          cases led'.symm.trans led
          have middle := (instruction_grows mainSized).extends.trans later
          obtain ⟨r, line, same, covers⟩ := replays.covers_instruction early b.pending led
          obtain ⟨r', line', -, covers'⟩ := next.covers_instruction middle _ main
          refine ⟨[r, r'], covers.trans covers', ?_, by simp [Statement.isCode]⟩
          simp [line, line', same]

/-! ## Lines -/

theorem AtLine.covers {verify : Bool} {number : Nat} {text : List Char}
    (atLine : AtLine origin final verify number text a a' b b') :
    ∃ line rows, Line.parse text = .ok line ∧ Covers origin final rows b b' ∧
      (∀ r ∈ rows, r.line = number) ∧ (rows ≠ [] ↔ line.statement.isCode = true) := by
  obtain ⟨line, read, -⟩ := numberedLine_ok.1 atLine.sized
  obtain ⟨c, d, replays, -, -, sink, listing, here, sized, done⟩ := atLine.statement read
  obtain ⟨rows, covers, numbers, code⟩ := replays.covers_statement sized atLine.later done
  refine ⟨line, rows, read, ⟨?_, ?_, ?_⟩, here ▸ numbers, code⟩
  · rw [covers.listed, listing]
  · rw [covers.written, sink]
  · rw [← sink]
    exact covers.placed

/-- **The rows of a run over lines.**  They show what it writes, in the order of the lines, and
every line that stands for bytes has one. -/
theorem Replays.covers {verify : Bool} {number : Nat} {texts : List (List Char)}
    (replays : Replays origin final a b) (sized : final.Sized origin) (idle : a.pending = none)
    (done : Assembler.sourceLines .sizing false number texts a = .ok () a')
    (later : a'.symbols.Extends final)
    (run : Assembler.sourceLines .encoding verify number texts b = .ok () b') :
    ∃ rows, Covers origin final rows b b' ∧ (rows.Pairwise fun r r' => r.line ≤ r'.line) ∧
      ∀ m, (∃ r ∈ rows, r.line = m) ↔ ∃ n, m = number + n ∧ CodeLine texts n := by
  induction texts generalizing number a b with
  | nil =>
      cases run
      exact ⟨[], covers_nil rfl rfl, .nil, by simp [CodeLine]⟩
  | cons text rest ih =>
      obtain ⟨c, firstSized, restSized⟩ := sourceLines_cons_ok.1 done
      obtain ⟨d, firstRun, restRun⟩ := sourceLines_cons_ok.1 run
      have grown := (sourceLines_grows restSized).extends.trans later
      have next : Replays origin final c d := by
        have yields := (replays.numberedLine sized firstSized grown verify).2
        rw [firstRun] at yields
        exact yields
      obtain ⟨-, idle', -⟩ := numberedLine_frame firstSized idle
      have atLine : AtLine origin final verify number text a c b d :=
        ⟨replays, next, idle, grown, firstSized, firstRun⟩
      obtain ⟨line, rows, read, covers, numbers, code⟩ := atLine.covers
      obtain ⟨rows', covers', ordered, numbers'⟩ := ih next idle' restSized restRun
      refine ⟨rows ++ rows', covers.trans covers', ?_, ?_⟩
      · refine List.pairwise_append.2 ⟨?_, ordered, ?_⟩
        · refine List.pairwise_of_forall_mem_list fun r known r' known' => ?_
          rw [numbers r known, numbers r' known']
        · intro r known r' known'
          obtain ⟨n, later, -⟩ := (numbers' r'.line).1 ⟨r', known', rfl⟩
          rw [numbers r known, later]
          omega
      · intro m
        constructor
        · rintro ⟨r, known, rfl⟩
          rcases List.mem_append.1 known with known | known
          · exact ⟨0, numbers r known, (codeLine_zero read).2 (code.1 (List.ne_nil_of_mem known))⟩
          · obtain ⟨n, later, found⟩ := (numbers' r.line).1 ⟨r, known, rfl⟩
            exact ⟨n + 1, by omega, codeLine_succ.2 found⟩
        · rintro ⟨n, rfl, found⟩
          cases n with
          | zero =>
              obtain ⟨r, known⟩ := List.exists_mem_of_ne_nil _ (code.2 ((codeLine_zero read).1 found))
              exact ⟨r, List.mem_append_left _ known, numbers r known⟩
          | succ n =>
              obtain ⟨r, known, same⟩ :=
                (numbers' (number + 1 + n)).2 ⟨n, rfl, codeLine_succ.1 found⟩
              exact ⟨r, List.mem_append_right _ known, by omega⟩

end Assembler

/-! ## The pass as a whole -/

variable {source : String} {cfg : Config}

/-- Without a listing, all is as with it. -/
theorem assemble_unlisted (source : String) (cfg : Config) :
    assemble source { cfg with listing := false } =
      (assemble source cfg).map fun out => { out with listing := [] } := by
  have kept : Assembler.KeptByRows fun _ rows' => rows' = none := by
    rintro rows rows' r r' rfl -
    rfl
  have alike : ReadAlike (lines source.toList) (lines source.toList) :=
    List.forall₂_same.2 fun _ _ => rfl
  have same := assemble_relisted kept alike cfg { cfg with listing := false } rfl rfl rfl
    (fun out => { out with listing := [] }) id fun image symbols rows rows' unlisted => by
      rw [unlisted]
      rfl
  rwa [Except.map_id] at same

/-- **The listing covers the image exactly.**  The bytes of the rows are the image, every row
stands where the rows before it end, and the rows come in the order of their lines, which are
those of data and instructions.  Without a listing the image and the symbols are the same. -/
theorem listing_covers_image {out : Assembled} (listing : cfg.listing = true)
    (done : assemble source cfg = .ok out) :
    out.listing.flatMap Row.bytes = out.image.bytes.toList ∧
      (∀ before r after, out.listing = before ++ r :: after →
        ∃ seg, out.symbols.segmentRecord? (some r.segment) = some seg ∧
          seg.address.toNat + r.offset.toNat =
            cfg.origin.toNat + (before.flatMap Row.bytes).length) ∧
      (out.listing.Pairwise fun r r' => r.line ≤ r'.line) ∧
      (∀ m, (∃ r ∈ out.listing, r.line = m) ↔
        ∃ n, m = n + 1 ∧ CodeLine (lines source.toList) n) ∧
      assemble source { cfg with listing := false } = .ok { out with listing := [] } := by
  obtain ⟨last, b, first, run, whole⟩ := assemble_ok done
  have start := replays_encodingStart last.symbols cfg
  obtain ⟨rows, covers, ordered, numbers⟩ :=
    start.covers first.sized rfl first.done (.refl _) (first.run run)
  have image : out.image.bytes = b.sink.bytes := congrArg (fun o => o.image.bytes) whole
  have listed : out.listing = rows := by
    have all : out.listing = b.listing := congrArg Assembled.listing whole
    rw [all, Assembler.listing, covers.listed]
    simp [encodingStart, listing]
  rw [listed]
  refine ⟨?_, ?_, ordered, ?_, ?_⟩
  · rw [image, covers.written]
    rfl
  · rintro before r after rfl
    obtain ⟨⟨seg, known, name, place⟩, -⟩ := (placed_append.1 covers.placed).2
    refine ⟨seg.symbol, ?_, ?_⟩
    · rw [← name]
      exact SymbolTable.segmentRecord?_eq first.sized first.frozen known
    · show seg.start.toNat + r.offset.toNat = _
      rw [place]
      exact congrArg (cfg.origin.toNat + ·) (Nat.zero_add _)
  · intro m
    rw [numbers m]
    simp only [Nat.add_comm]
  · rw [assemble_unlisted, done]
    rfl

/-- Two segments, with a lead, data of no bytes and a comment. -/
def leadAndEmpty : String := "C SEGMENT\nA: REP MOVSB\n DB \"\"\nD SEGMENT\n HLT ; end\n DW A"

theorem listing_covers_lead_and_empty :
    ∃ out, assemble leadAndEmpty { origin := 256, listing := true } = .ok out ∧
      out.listing.map (fun r => (r.line, r.segment, r.offset, r.bytes)) =
        [(2, "C", 0, [0xF3]), (2, "C", 1, [0xA4]), (3, "C", 2, []), (5, "D", 0, [0xF4]),
          (6, "D", 1, [0, 0])] ∧
      out.listing.flatMap Row.bytes = out.image.bytes.toList ∧
      (∃ seg, out.symbols.segmentRecord? (some "D") = some seg ∧
        seg.address.toNat + 1 = 256 + [0xF3, 0xA4, 0xF4].length) ∧
      assemble leadAndEmpty { origin := 256 } = .ok { out with listing := [] } := by
  have done : assemble leadAndEmpty { origin := 256, listing := true } =
      .ok ⟨⟨256, #[0xF3, 0xA4, 0xF4, 0, 0]⟩,
        [⟨.segment, "", "C", 2, 256⟩, ⟨.segment, "", "D", 3, 258⟩, ⟨.label, "A", "C", 0, 256⟩],
        [⟨2, "C", 0, [0xF3], "REP"⟩, ⟨2, "C", 1, [0xA4], "MOVSB"⟩, ⟨3, "C", 2, [], "DB \"\""⟩,
          ⟨5, "D", 0, [0xF4], "HLT"⟩, ⟨6, "D", 1, [0, 0], "DW A"⟩]⟩ := by decide +kernel
  obtain ⟨bytes, places, -, -, unlisted⟩ := listing_covers_image rfl done
  exact ⟨_, done, rfl, bytes,
    places (_ :: _ :: _ :: _ :: []) ⟨6, "D", 1, [0, 0], "DW A"⟩ [] rfl, unlisted⟩

end Asm86.Assembly
