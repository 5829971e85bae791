/-
# Asm86.Proofs.Assembly.Relocation -- an image does not depend on where it lies

Assembling a source for another origin moves the addresses of its symbols and changes nothing
else, as long as the image has room there (`assemble_relocated`).

The two runs keep relocated tables, step by step (`Assembler.Relocates`).  For that the target of
every jump must be a number that no origin pushes out of range.  The sizing pass alone would let
others pass, but the encoding pass does not, so in an assembled source there are none
(`sourceLines_bounded`).
-/
import Asm86.Proofs.Assembly.Agreement
import Asm86.Proofs.Assembly.Jumps

namespace Asm86.Assembly

open Asm86.Checked
open Asm86.Text
open Asm86.Machine
open Asm86.Encoding
open Asm86.Source
open Asm86.Symbols
open Asm86.Output

set_option autoImplicit false

variable {o o' : Nat}

/-- The target of a jump stays in range wherever the image lies. -/
def BoundedJump (st : Statement) : Prop :=
  ∀ lead op e, st = .instruction lead op [.imm e] → op.isRelative = true → Bounded e

def BoundedJumps (texts : List (List Char)) : Prop :=
  ∀ text ∈ texts, ∀ line, Line.parse text = .ok line → BoundedJump line.statement

namespace Assembler

/-! ## Passes edit the table -/

theorem instruction_edited {phase : Phase} {i : Instruction} {a b : Assembler}
    (done : instruction phase i a = .ok () b) (unlimited : a.sink.capacity = none) :
    a.symbols.Edited b.symbols ∧ b.sink.capacity = none := by
  cases phase with
  | sizing =>
      obtain ⟨layout, t, -, moved, rfl⟩ := instruction_sizing_ok.1 done
      exact ⟨.once (.advance _) moved, unlimited⟩
  | encoding =>
      obtain ⟨layout, t, -, moved, rfl⟩ := (instruction_encoding_ok unlimited).1 done
      exact ⟨.once (.advance _) moved, unlimited⟩

/-- A lead is an instruction, or nothing. -/
theorem lead_edited {phase : Phase} {lead : Option Operation} {a b : Assembler}
    (led : lead.elim (b = a) fun l => instruction phase ⟨l, .none⟩ a = .ok () b)
    (unlimited : a.sink.capacity = none) :
    a.symbols.Edited b.symbols ∧ b.sink.capacity = none := by
  cases lead with
  | none =>
      cases led
      exact ⟨.refl _, unlimited⟩
  | some l => exact instruction_edited led unlimited

theorem data_edited {phase : Phase} {bytes : List UInt8} {text : String} {a b : Assembler}
    (done : data phase bytes text a = .ok () b) (unlimited : a.sink.capacity = none) :
    a.symbols.Edited b.symbols ∧ b.sink.capacity = none := by
  cases phase with
  | sizing =>
      obtain ⟨t, moved, rfl⟩ := data_sizing_ok.1 done
      exact ⟨.once (.advance _) moved, unlimited⟩
  | encoding =>
      obtain ⟨t, moved, rfl⟩ := (data_encoding_ok unlimited).1 done
      exact ⟨.once (.advance _) moved, unlimited⟩

theorem statement_edited {phase : Phase} {text : List Char} {st : Statement} {a b : Assembler}
    (done : statement phase text st a = .ok () b) (unlimited : a.sink.capacity = none) :
    a.symbols.Edited b.symbols ∧ b.sink.capacity = none := by
  cases st with
  | empty | ignored =>
      cases done
      exact ⟨.refl _, unlimited⟩
  | segmentStart name =>
      cases phase with
      | sizing =>
          obtain ⟨t, added, rfl⟩ := segmentStart_sizing_ok.1 done
          exact ⟨.once (.addSegment name) added, unlimited⟩
      | encoding =>
          obtain ⟨t, entered, rfl⟩ := segmentStart_encoding_ok.1 done
          exact ⟨.once (.enterSegment name) entered, unlimited⟩
  | segmentEnd name =>
      obtain ⟨-, rfl⟩ := segmentEnd_ok.1 done
      exact ⟨.refl _, unlimited⟩
  | data width items =>
      obtain ⟨bytes, -, done⟩ := dataStatement_ok.1 done
      exact data_edited done unlimited
  | instruction lead op operands =>
      obtain ⟨c, o, led, -, main⟩ := sourceInstruction_ok.1 done
      obtain ⟨first, unlimited⟩ := lead_edited led unlimited
      obtain ⟨second, unlimited⟩ := instruction_edited main unlimited
      exact ⟨first.trans second, unlimited⟩

theorem label_edited {phase : Phase} {verify : Bool} {label : Option String} {a b : Assembler}
    (labelled : label.elim (b = a) fun name => defineLabel phase verify name a = .ok () b)
    (unlimited : a.sink.capacity = none) :
    a.symbols.Edited b.symbols ∧ b.sink.capacity = none := by
  cases label with
  | none =>
      cases labelled
      exact ⟨.refl _, unlimited⟩
  | some name =>
      cases phase with
      | sizing =>
          obtain ⟨t, added, rfl⟩ := defineLabel_sizing_ok.1 labelled
          exact ⟨.once (.addLabel name) added, unlimited⟩
      | encoding =>
          obtain ⟨-, rfl⟩ := defineLabel_encoding_ok.1 labelled
          exact ⟨.refl _, unlimited⟩

theorem numberedLine_edited {phase : Phase} {verify : Bool} {number : Nat} {text : List Char}
    {a b : Assembler} (done : numberedLine phase verify number text a = .ok () b)
    (unlimited : a.sink.capacity = none) :
    a.symbols.Edited b.symbols ∧ b.sink.capacity = none := by
  obtain ⟨line, -, done⟩ := numberedLine_ok.1 done
  obtain ⟨c, labelled, done⟩ := parsedLine_ok.1 done
  obtain ⟨first, unlimited⟩ := label_edited labelled unlimited
  obtain ⟨second, unlimited⟩ := statement_edited done unlimited
  exact ⟨first.trans second, unlimited⟩

theorem sourceLines_edited {phase : Phase} {verify : Bool} {number : Nat} {texts : List (List Char)}
    {a b : Assembler} (done : sourceLines phase verify number texts a = .ok () b)
    (unlimited : a.sink.capacity = none) : a.symbols.Edited b.symbols := by
  induction texts generalizing number a with
  | nil =>
      cases done
      exact .refl _
  | cons text rest ih =>
      obtain ⟨c, first, done⟩ := sourceLines_cons_ok.1 done
      obtain ⟨edited, unlimited⟩ := numberedLine_edited first unlimited
      exact edited.trans (ih done unlimited)

/-! ## The jumps of an encoded source -/

theorem instruction_current {phase : Phase} {i : Instruction} {a b : Assembler}
    (done : instruction phase i a = .ok () b) (unlimited : a.sink.capacity = none) :
    ∃ seg, a.symbols.currentSegment? = some seg := by
  cases phase with
  | sizing =>
      obtain ⟨layout, t, -, moved, -⟩ := instruction_sizing_ok.1 done
      obtain ⟨seg, current, -⟩ := SymbolTable.currentSegment?_advance moved
      exact ⟨seg, current⟩
  | encoding =>
      obtain ⟨layout, t, -, moved, -⟩ := (instruction_encoding_ok unlimited).1 done
      obtain ⟨seg, current, -⟩ := SymbolTable.currentSegment?_advance moved
      exact ⟨seg, current⟩

theorem statement_bounded {text : List Char} {st : Statement} {a b : Assembler}
    (consistent : a.symbols.Consistent) (unlimited : a.sink.capacity = none)
    (done : statement .encoding text st a = .ok () b) : BoundedJump st := by
  rintro lead op e rfl relative
  obtain ⟨c, o, led, resolved, done⟩ := sourceInstruction_ok.1 done
  obtain ⟨edited, unlimited⟩ := lead_edited led unlimited
  obtain ⟨seg, current⟩ := instruction_current done unlimited
  obtain ⟨i, lone, -⟩ := map_eq_ok.1 resolved
  exact Scope.bounded_of_single rfl (edited.consistent consistent) current lone relative

/-- In a source that can be encoded, every jump goes to a number that no origin pushes out of
range. -/
theorem sourceLines_bounded {verify : Bool} {number : Nat} {texts : List (List Char)}
    {a b : Assembler} (consistent : a.symbols.Consistent) (unlimited : a.sink.capacity = none)
    (done : sourceLines .encoding verify number texts a = .ok () b) : BoundedJumps texts := by
  induction texts generalizing number a with
  | nil => exact fun _ member => absurd member List.not_mem_nil
  | cons text rest ih =>
      obtain ⟨c, first, done⟩ := sourceLines_cons_ok.1 done
      obtain ⟨edited, unlimited'⟩ := numberedLine_edited first unlimited
      refine List.forall_mem_cons.2 ⟨?_, ih (edited.consistent consistent) unlimited' done⟩
      intro line read
      obtain ⟨line', read', first⟩ := numberedLine_ok.1 first
      cases read.symm.trans read'
      obtain ⟨d, labelled, first⟩ := parsedLine_ok.1 first
      obtain ⟨before, unlimited⟩ := label_edited labelled unlimited
      exact statement_bounded (before.consistent consistent) unlimited first

/-! ## Two runs -/

/-- The assembler with another table. -/
def withSymbols (a : Assembler) (u : SymbolTable) : Assembler := { a with symbols := u }

/-- The run at the other origin differs from `a` in its table `u` alone. -/
structure Relocates (phase : Phase) (o o' : Nat) (a : Assembler) (u : SymbolTable) : Prop where
  table : a.symbols.Relocated o o' u
  left : a.symbols.Consistent
  right : u.Consistent
  /-- The sizing pass starts the next segment at the image counter. -/
  image : phase = .sizing → Shifted o o' a.symbols.imageCounter u.imageCounter
  unlimited : a.sink.capacity = none

variable {phase : Phase} {a a' : Assembler} {u : SymbolTable}

theorem Relocates.scope (relocates : Relocates phase o o' a u) :
    Scope.Relocated o o' (a.scope phase) ((a.withSymbols u).scope phase) :=
  ⟨relocates.table, rfl, relocates.left, relocates.right⟩

theorem Relocates.withPending (relocates : Relocates phase o o' a u) (pending : Option SegReg) :
    Relocates phase o o' { a with pending } u :=
  ⟨relocates.table, relocates.left, relocates.right, relocates.image, relocates.unlimited⟩

theorem Relocates.advance {len : Nat} {t : SymbolTable} (relocates : Relocates phase o o' a u)
    (moved : a.symbols.advance len = .ok t) (room : t.Fits o o') :
    ∃ u', u.advance len = .ok u' ∧ t.Relocated o o' u' ∧
      ∀ b : Assembler, b.symbols = t → b.sink.capacity = none → Relocates phase o o' b u' := by
  obtain ⟨u', moved', table, image⟩ := relocates.table.advance relocates.left moved room
  refine ⟨u', moved', table, ?_⟩
  rintro b rfl unlimited
  exact ⟨table, relocates.left.advance moved, relocates.right.advance moved', fun _ => image, unlimited⟩

/-- A row shows the place in the segment, not that in the image. -/
theorem rowOf_relocated (table : a.symbols.Relocated o o' u) (bytes : List UInt8) (text : String) :
    (a.withSymbols u).rowOf bytes text = a.rowOf bytes text := by
  unfold rowOf withSymbols
  rcases table.current_cases with ⟨here, here'⟩ | ⟨_, _, here, here', moved⟩
  · simp only [here, here']
  · simp only [here, here', moved.name, moved.counter]

theorem checkEnds_relocated (table : a.symbols.Relocated o o' u) (name : String) :
    (a.withSymbols u).checkEnds name = a.checkEnds name := by
  unfold checkEnds withSymbols
  rcases table.current_cases with ⟨here, here'⟩ | ⟨_, _, here, here', moved⟩
  · simp only [here, here']
  · simp only [here, here', Option.map_some, moved.name]

theorem checkLabel_relocated (table : a.symbols.Relocated o o' u) (verify : Bool) (name : String) :
    (a.withSymbols u).checkLabel verify name = a.checkLabel verify name := by
  unfold checkLabel withSymbols
  rcases table.current_cases with ⟨here, here'⟩ | ⟨_, _, here, here', moved⟩
  · simp only [here, here']
  · simp only [here, here', moved.name, moved.counter, table.labels]

theorem afterWriting_relocated {t u' : SymbolTable} (table : t.Relocated o o' u')
    (bytes : List UInt8) (text : String) :
    (a.withSymbols u).afterWriting u' bytes text = (a.afterWriting t bytes text).withSymbols u' := by
  have row := rowOf_relocated
    (a := { a with symbols := t, sink := { a.sink with bytes := a.sink.bytes ++ bytes } })
    table bytes text
  simp only [withSymbols] at row
  simp only [afterWriting, withSymbols, row]

theorem Relocates.instruction {i : Instruction} (relocates : Relocates phase o o' a u)
    (done : instruction phase i a = .ok () a') (room : a'.symbols.Fits o o') :
    ∃ u', Assembler.instruction phase i (a.withSymbols u) = .ok () (a'.withSymbols u') ∧
      Relocates phase o o' a' u' := by
  cases phase with
  | sizing =>
      obtain ⟨layout, t, planned, moved, rfl⟩ := instruction_sizing_ok.1 done
      obtain ⟨u', moved', -, next⟩ := relocates.advance moved room
      exact ⟨u', instruction_sizing_ok.2 ⟨layout, u', planned, moved', rfl⟩,
        next _ rfl relocates.unlimited⟩
  | encoding =>
      obtain ⟨layout, t, planned, moved, rfl⟩ := (instruction_encoding_ok relocates.unlimited).1 done
      obtain ⟨u', moved', table, next⟩ := relocates.advance moved room
      refine ⟨u', (instruction_encoding_ok (by exact relocates.unlimited)).2
        ⟨layout, u', planned, moved', ?_⟩, next _ rfl relocates.unlimited⟩
      exact (afterWriting_relocated table layout.bytes i.text).symm

theorem Relocates.data {bytes : List UInt8} {text : String} (relocates : Relocates phase o o' a u)
    (done : data phase bytes text a = .ok () a') (room : a'.symbols.Fits o o') :
    ∃ u', Assembler.data phase bytes text (a.withSymbols u) = .ok () (a'.withSymbols u') ∧
      Relocates phase o o' a' u' := by
  cases phase with
  | sizing =>
      obtain ⟨t, moved, rfl⟩ := data_sizing_ok.1 done
      obtain ⟨u', moved', -, next⟩ := relocates.advance moved room
      exact ⟨u', data_sizing_ok.2 ⟨u', moved', rfl⟩, next _ rfl relocates.unlimited⟩
  | encoding =>
      obtain ⟨t, moved, rfl⟩ := (data_encoding_ok relocates.unlimited).1 done
      obtain ⟨u', moved', table, next⟩ := relocates.advance moved room
      refine ⟨u', (data_encoding_ok (by exact relocates.unlimited)).2 ⟨u', moved', ?_⟩,
        next _ rfl relocates.unlimited⟩
      exact (afterWriting_relocated table bytes text).symm

theorem Relocates.sourceInstruction {lead : Option Operation} {op : Operation}
    {operands : List Operand} (relocates : Relocates phase o o' a u)
    (bounded : ∀ e, operands = [.imm e] → op.isRelative = true → Bounded e)
    (done : sourceInstruction phase lead op operands a = .ok () a') (room : a'.symbols.Fits o o') :
    ∃ u', Assembler.sourceInstruction phase lead op operands (a.withSymbols u) =
        .ok () (a'.withSymbols u') ∧
      Relocates phase o o' a' u' := by
  obtain ⟨c, machine, led, resolved, main⟩ := sourceInstruction_ok.1 done
  have first : ∃ v, (lead.elim (c.withSymbols v = a.withSymbols u) fun l =>
      Assembler.instruction phase ⟨l, .none⟩ (a.withSymbols u) = .ok () (c.withSymbols v)) ∧
      Relocates phase o o' c v := by
    cases lead with
    | none =>
        cases led
        exact ⟨u, rfl, relocates⟩
    | some l =>
        obtain ⟨-, unlimited⟩ := instruction_edited led relocates.unlimited
        obtain ⟨edited, -⟩ := instruction_edited main unlimited
        exact relocates.instruction led (edited.fits room)
  obtain ⟨v, led', between⟩ := first
  obtain ⟨seg, current⟩ := instruction_current main between.unlimited
  have resolved' := between.scope.operands bounded current resolved
  obtain ⟨u', main', next⟩ :=
    (between.withPending ((Scope.segmentOf? operands).or c.pending)).instruction main room
  exact ⟨u', sourceInstruction_ok.2 ⟨c.withSymbols v, machine, led', resolved', main'⟩, next⟩

theorem Relocates.startSegment {text : List Char} {name : String}
    (relocates : Relocates phase o o' a u)
    (done : statement phase text (.segmentStart name) a = .ok () a') :
    ∃ u', statement phase text (.segmentStart name) (a.withSymbols u) = .ok () (a'.withSymbols u') ∧
      Relocates phase o o' a' u' := by
  cases phase with
  | sizing =>
      obtain ⟨t, added, rfl⟩ := segmentStart_sizing_ok.1 done
      obtain ⟨u', added', table, image⟩ := relocates.table.addSegment (relocates.image rfl) added
      exact ⟨u', segmentStart_sizing_ok.2 ⟨u', added', rfl⟩, table, relocates.left.addSegment added,
        relocates.right.addSegment added', fun _ => image, relocates.unlimited⟩
  | encoding =>
      obtain ⟨t, entered, rfl⟩ := segmentStart_encoding_ok.1 done
      obtain ⟨u', entered', table⟩ := relocates.table.enterSegment relocates.right entered
      exact ⟨u', segmentStart_encoding_ok.2 ⟨u', entered', rfl⟩, table,
        relocates.left.enterSegment entered, relocates.right.enterSegment entered',
        (fun impossible => nomatch impossible), relocates.unlimited⟩

theorem Relocates.statement {text : List Char} {st : Statement} (relocates : Relocates phase o o' a u)
    (bounded : BoundedJump st) (done : statement phase text st a = .ok () a')
    (room : a'.symbols.Fits o o') :
    ∃ u', Assembler.statement phase text st (a.withSymbols u) = .ok () (a'.withSymbols u') ∧
      Relocates phase o o' a' u' := by
  cases st with
  | empty | ignored =>
      cases done
      exact ⟨u, rfl, relocates⟩
  | segmentStart name => exact relocates.startSegment done
  | segmentEnd name =>
      obtain ⟨ends, rfl⟩ := segmentEnd_ok.1 done
      refine ⟨u, segmentEnd_ok.2 ⟨?_, rfl⟩, relocates⟩
      rw [checkEnds_relocated relocates.table, ends]
  | data width items =>
      obtain ⟨bytes, found, done⟩ := dataStatement_ok.1 done
      obtain ⟨u', done', next⟩ := relocates.data done room
      refine ⟨u', dataStatement_ok.2 ⟨bytes, ?_, done'⟩, next⟩
      exact (relocates.scope.dataFrom width 0 items).trans found
  | instruction lead op operands =>
      refine relocates.sourceInstruction ?_ done room
      rintro e rfl
      exact bounded lead op e rfl

theorem Relocates.label {verify : Bool} {name : String} (relocates : Relocates phase o o' a u)
    (done : defineLabel phase verify name a = .ok () a') :
    ∃ u', defineLabel phase verify name (a.withSymbols u) = .ok () (a'.withSymbols u') ∧
      Relocates phase o o' a' u' := by
  cases phase with
  | sizing =>
      obtain ⟨t, added, rfl⟩ := defineLabel_sizing_ok.1 done
      obtain ⟨u', added', table, stays, stays'⟩ := relocates.table.addLabel added
      refine ⟨u', defineLabel_sizing_ok.2 ⟨u', added', rfl⟩, table, relocates.left.addLabel added,
        relocates.right.addLabel added', fun sizing => ?_, relocates.unlimited⟩
      rw [stays, stays']
      exact relocates.image sizing
  | encoding =>
      obtain ⟨known, rfl⟩ := defineLabel_encoding_ok.1 done
      refine ⟨u, defineLabel_encoding_ok.2 ⟨?_, rfl⟩, relocates⟩
      rw [checkLabel_relocated relocates.table, known]

theorem Relocates.numberedLine {verify : Bool} {number : Nat} {text : List Char}
    (relocates : Relocates phase o o' a u)
    (bounded : ∀ line, Line.parse text = .ok line → BoundedJump line.statement)
    (done : numberedLine phase verify number text a = .ok () a') (room : a'.symbols.Fits o o') :
    ∃ u', Assembler.numberedLine phase verify number text (a.withSymbols u) =
        .ok () (a'.withSymbols u') ∧
      Relocates phase o o' a' u' := by
  obtain ⟨line, read, done⟩ := numberedLine_ok.1 done
  obtain ⟨c, labelled, done⟩ := parsedLine_ok.1 done
  have start : Relocates phase o o' { a with line := number } u :=
    ⟨relocates.table, relocates.left, relocates.right, relocates.image, relocates.unlimited⟩
  have first : ∃ v, (line.label.elim (c.withSymbols v = { a with line := number }.withSymbols u)
      fun name => defineLabel phase verify name ({ a with line := number }.withSymbols u) =
        .ok () (c.withSymbols v)) ∧
      Relocates phase o o' c v := by
    cases label : line.label with
    | none =>
        rw [label] at labelled
        cases labelled
        exact ⟨u, rfl, start⟩
    | some name =>
        rw [label] at labelled
        exact start.label labelled
  obtain ⟨v, labelled', between⟩ := first
  obtain ⟨u', done', next⟩ := between.statement (bounded line read) done room
  exact ⟨u', numberedLine_ok.2 ⟨line, read, parsedLine_ok.2 ⟨_, labelled', done'⟩⟩, next⟩

/-- Lines that ran for one origin run for the other, and end relocated. -/
theorem Relocates.sourceLines {verify : Bool} {number : Nat} {texts : List (List Char)}
    (relocates : Relocates phase o o' a u)
    (bounded : BoundedJumps texts)
    (done : sourceLines phase verify number texts a = .ok () a') (room : a'.symbols.Fits o o') :
    ∃ u', Assembler.sourceLines phase verify number texts (a.withSymbols u) =
        .ok () (a'.withSymbols u') ∧
      Relocates phase o o' a' u' := by
  induction texts generalizing number a u with
  | nil =>
      cases done
      exact ⟨u, rfl, relocates⟩
  | cons text rest ih =>
      obtain ⟨c, first, done⟩ := sourceLines_cons_ok.1 done
      obtain ⟨-, unlimited⟩ := numberedLine_edited first relocates.unlimited
      -- Room is known of the last table only; the tables before it need less.
      have later := (sourceLines_edited done unlimited).fits room
      obtain ⟨v, first', next⟩ :=
        relocates.numberedLine (bounded text List.mem_cons_self) first later
      obtain ⟨u', done', final⟩ :=
        ih next (fun text member => bounded text (List.mem_cons_of_mem _ member)) done
      exact ⟨u', sourceLines_cons_ok.2 ⟨_, first', done'⟩, final⟩

end Assembler

/-! ## Both passes -/

variable {source : String} {cfg : Config} {last b : Assembler} {snapshot : Snapshot}

/-- An image that has room at the other origin leaves room to all its segments. -/
theorem FirstPass.fits (first : FirstPass source cfg last snapshot) {origin : UInt32}
    (run : encoded source last.symbols cfg = .ok () b)
    (room : origin.toNat + b.sink.bytes.size ≤ 4294967295) :
    last.symbols.Fits cfg.origin.toNat origin.toNat ∧
      b.symbols.Fits cfg.origin.toNat origin.toNat := by
  have replays := first.encoded_yields
  rw [run] at replays
  have fits : last.symbols.Fits cfg.origin.toNat origin.toNat := by
    intro s known
    -- The segments end where the first pass stopped counting, and that is what was written.
    have stop := first.sized.filled.end_le known
    have written := replays.written
    omega
  refine ⟨fits, ?_⟩
  unfold SymbolTable.Fits
  rw [replays.table.segments_final]
  exact fits

theorem FirstPass.consistent (first : FirstPass source cfg last snapshot) :
    last.symbols.Consistent :=
  (Assembler.sourceLines_edited first.done rfl).consistent
    (SymbolTable.consistent_ofOrigin cfg.origin)

theorem FirstPass.bounded (first : FirstPass source cfg last snapshot)
    (run : encoded source last.symbols cfg = .ok () b) : BoundedJumps (lines source.toList) :=
  Assembler.sourceLines_bounded first.consistent.rebuilt rfl run

/-- The first pass for the other origin. -/
theorem FirstPass.relocated (first : FirstPass source cfg last snapshot) {origin : UInt32}
    (bounded : BoundedJumps (lines source.toList))
    (fits : last.symbols.Fits cfg.origin.toNat origin.toNat) :
    ∃ u snapshot', FirstPass source { cfg with origin } (last.withSymbols u) snapshot' ∧
      last.symbols.Relocated cfg.origin.toNat origin.toNat u ∧ u.Consistent ∧
      List.Forall₂ (Symbol.Relocated cfg.origin.toNat origin.toNat) snapshot snapshot' := by
  have start : Assembler.Relocates .sizing cfg.origin.toNat origin.toNat (.ofConfig cfg)
      (.ofOrigin origin) :=
    ⟨⟨.nil, rfl, rfl, fun impossible => nomatch impossible⟩, SymbolTable.consistent_ofOrigin _,
      SymbolTable.consistent_ofOrigin _, fun _ => Nat.add_comm _ _, rfl⟩
  obtain ⟨u, done, final⟩ := start.sourceLines bounded first.done fits
  obtain ⟨snapshot', frozen⟩ := final.right.freeze_ok
  exact ⟨u, snapshot', ⟨done, frozen⟩, final.table, final.right,
    final.table.freeze final.left final.right first.frozen frozen⟩

/-- The second pass over a table at another place writes the same. -/
theorem encoded_relocated {t u : SymbolTable} (table : t.Relocated o o' u) (left : t.Consistent)
    (right : u.Consistent) (origin : UInt32)
    (bounded : BoundedJumps (lines source.toList))
    (run : encoded source t cfg = .ok () b) (fits : b.symbols.Fits o o') :
    ∃ v, encoded source u { cfg with origin } = .ok () (b.withSymbols v) := by
  have start : Assembler.Relocates .encoding o o' (encodingStart t cfg)
      (.ofParts (u.segments.map Segment.reset) u.labels) :=
    ⟨table.rebuilt, left.rebuilt, right.rebuilt, (fun impossible => nomatch impossible), rfl⟩
  obtain ⟨v, done, -⟩ := start.sourceLines bounded run fits
  exact ⟨v, done⟩

/-- **Relocation by the origin.**  A source that was assembled for one origin can be assembled
for every other at which its image has room.  The bytes and the listing are the same, and the
records differ in their addresses alone, which move with the origin. -/
theorem assemble_relocated {out : Assembled} (done : assemble source cfg = .ok out)
    {origin : UInt32} (room : origin.toNat + out.image.bytes.size ≤ 4294967295) :
    ∃ symbols, assemble source { cfg with origin } =
        .ok ⟨⟨origin, out.image.bytes⟩, symbols, out.listing⟩ ∧
      List.Forall₂ (Symbol.Relocated cfg.origin.toNat origin.toNat) out.symbols symbols := by
  obtain ⟨last, b, first, run, whole⟩ := assemble_ok done
  obtain ⟨-, -, named, few⟩ := assembled_symbols done
  have image : out.image.bytes = b.sink.bytes := congrArg (fun x => x.image.bytes) whole
  have listing : out.listing = b.listing := congrArg Assembled.listing whole
  rw [image] at room
  obtain ⟨fits, fits'⟩ := first.fits run room
  have bounded := first.bounded run
  obtain ⟨u, symbols, first', table, right, records⟩ := first.relocated bounded fits
  obtain ⟨v, run'⟩ := encoded_relocated table first.consistent right origin bounded run fits'
  refine ⟨symbols, ?_, records⟩
  rw [first'.assemble_eq (named.relocated records) (records.length_eq ▸ few)]
  have run' : encoded source (last.withSymbols u).symbols { cfg with origin } = _ := run'
  rw [run', image, listing]
  rfl

/-- Jumps into another segment and back, and a word with an offset. -/
def crossing : String := "C SEGMENT\n JMP N\nD SEGMENT\nM: DW M\nN: LOOP M"

/-- Up to the last place where the image has room. -/
theorem assemble_relocated_to_end :
    ∃ out symbols, assemble crossing { origin := 256, listing := true } = .ok out ∧
      out.image.bytes = #[0xE9, 2, 0, 0, 0, 0xE2, 0xFC] ∧ out.listing.length = 3 ∧
      4294967288 + out.image.bytes.size = 4294967295 ∧
      assemble crossing { origin := 4294967288, listing := true } =
        .ok ⟨⟨4294967288, out.image.bytes⟩, symbols, out.listing⟩ ∧
      List.Forall₂ (Symbol.Relocated 256 4294967288) out.symbols symbols := by
  have done : assemble crossing { origin := 256, listing := true } =
      .ok ⟨⟨256, #[0xE9, 2, 0, 0, 0, 0xE2, 0xFC]⟩,
        [⟨.segment, "", "C", 3, 256⟩, ⟨.segment, "", "D", 4, 259⟩,
          ⟨.label, "M", "D", 0, 259⟩, ⟨.label, "N", "D", 2, 261⟩],
        [⟨2, "C", 0, [0xE9, 2, 0], "JMP 0002h"⟩, ⟨4, "D", 0, [0, 0], "M: DW M"⟩,
          ⟨5, "D", 2, [0xE2, 0xFC], "LOOP FCh"⟩]⟩ := by decide +kernel
  obtain ⟨symbols, moved, records⟩ :=
    assemble_relocated done (show (4294967288 : UInt32).toNat + 7 ≤ 4294967295 by decide)
  exact ⟨_, symbols, done, rfl, rfl, rfl, moved, records⟩

end Asm86.Assembly
