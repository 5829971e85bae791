/-
# Asm86.Proofs.Assembly.Replay -- the encoding pass follows the sizing pass

`Replays origin final a b` relates an assembler `a` of the sizing pass to an assembler `b` of
the encoding pass over the same lines: their tables correspond, and `b` has written as many
bytes as `a` has counted.

Every line that the sizing pass gets through, the encoding pass gets through as well, or it
fails because a name is unknown or a value or distance does not fit
(`Replays.numberedLine`).  Nothing else can go wrong: the layouts have the sizes that were
counted, so segments, counters and labels are where they were.
-/
import Asm86.Proofs.Assembly.Steps
import Asm86.Proofs.Assembly.Values
import Asm86.Proofs.Symbols.Replay

namespace Asm86.Assembly.Assembler

open Asm86.Machine
open Asm86.Encoding
open Asm86.Source
open Asm86.Symbols

set_option autoImplicit false

structure Replays (origin : Nat) (final : SymbolTable) (a b : Assembler) : Prop where
  table : final.Replays a.symbols b.symbols
  sized : a.symbols.Sized origin
  pending : b.pending = a.pending
  unlimited : b.sink.capacity = none
  /-- What was counted has been written. -/
  written : a.symbols.imageCounter.toNat = origin + b.sink.bytes.size

variable {origin : Nat} {final : SymbolTable} {a a' b : Assembler}

theorem Replays.currentSegment?_eq (replays : Replays origin final a b) :
    b.symbols.currentSegment? = a.symbols.currentSegment? :=
  replays.table.currentSegment?_eq replays.sized

/-- The encoding pass stands where the image counter of the sizing pass says. -/
theorem Replays.here (replays : Replays origin final a b) {s : Segment}
    (current : a.symbols.currentSegment? = some s) :
    b.symbols.here? = .ok (some a.symbols.imageCounter) := by
  have reached : addressAt s.start s.counter.toNat = .ok a.symbols.imageCounter :=
    addressAt_ok.2 (replays.sized.imageCounter_eq current)
  unfold SymbolTable.here?
  rw [replays.currentSegment?_eq, current]
  simp only [reached, Except.map]

/-- No address that the encoding pass computes leaves its range. -/
theorem Replays.settled (replays : Replays origin final a b) (sized : final.Sized origin)
    (later : a.symbols.Extends final) : (b.scope .encoding).Settled where
  here := by
    cases current : a.symbols.currentSegment? with
    | some s => exact ⟨_, replays.here current⟩
    | none =>
        refine ⟨none, ?_⟩
        show b.symbols.here? = .ok none
        unfold SymbolTable.here?
        rw [replays.currentSegment?_eq, current]
  labels := by
    intro l member
    have known : l ∈ final.labels := replays.table.labels ▸ member
    obtain ⟨s, address, -, -, -, found, -⟩ := sized.addressOf?_ok known
    refine ⟨some address, ?_⟩
    show b.symbols.addressOf? l = _
    rw [SymbolTable.addressOf?_congr (replays.table.reset_final later), found]

/-! ## Steps that move the counters -/

theorem Replays.advance {len : Nat} {t : SymbolTable} {bytes : List UInt8}
    (replays : Replays origin final a b) (moved : a.symbols.advance len = .ok t)
    (size : bytes.length = len) (text : String) :
    ∃ u, b.symbols.advance len = .ok u ∧
      Replays origin final { a with symbols := t } (b.afterWriting u bytes text) := by
  obtain ⟨u, followed, table⟩ := replays.table.advance moved
  refine ⟨u, followed, table, replays.sized.advance moved, replays.pending, replays.unlimited, ?_⟩
  obtain ⟨i, s, address, -, -, -, stop, rfl⟩ := SymbolTable.advance_ok.1 moved
  have counted := addressAt_ok.1 stop
  have before := replays.written
  rw [afterWriting_size, size]
  show address.toNat = origin + (b.sink.bytes.size + len)
  omega

/-- An override that both passes set is the same. -/
theorem Replays.withPending (replays : Replays origin final a b) (pending : Option SegReg) :
    Replays origin final { a with pending } { b with pending } :=
  ⟨replays.table, replays.sized, rfl, replays.unlimited, replays.written⟩

theorem Replays.instruction {op : Operation} {x y : Operands} (replays : Replays origin final a b)
    (alike : x.shape op.group = y.shape op.group)
    (done : instruction .sizing ⟨op, x⟩ a = .ok () a') :
    ∃ b', Assembler.instruction .encoding ⟨op, y⟩ b = .ok () b' ∧ Replays origin final a' b' := by
  obtain ⟨layout, t, planned, moved, rfl⟩ := instruction_sizing_ok.1 done
  obtain ⟨other, plannedToo, size⟩ := plan_ok_of_alike alike planned
  rw [← replays.pending] at plannedToo
  obtain ⟨u, followed, next⟩ := (replays.withPending none).advance moved
    (other.length_bytes.trans size) (⟨op, y⟩ : Instruction).text
  rw [← size] at followed
  exact ⟨_, (instruction_encoding_ok replays.unlimited).2 ⟨other, u, plannedToo, followed, rfl⟩, next⟩

theorem Replays.data {bytes bytes' : List UInt8} {text : String}
    (replays : Replays origin final a b) (size : bytes'.length = bytes.length)
    (done : data .sizing bytes text a = .ok () a') :
    ∃ b', Assembler.data .encoding bytes' text b = .ok () b' ∧ Replays origin final a' b' := by
  obtain ⟨t, moved, rfl⟩ := data_sizing_ok.1 done
  obtain ⟨u, followed, next⟩ := replays.advance moved size text
  rw [← size] at followed
  exact ⟨_, (data_encoding_ok replays.unlimited).2 ⟨u, followed, rfl⟩, next⟩

/-! ## Statements -/

theorem Replays.sourceInstruction {lead : Option Operation} {op : Operation}
    {operands : List Operand} (replays : Replays origin final a b) (sized : final.Sized origin)
    (done : sourceInstruction .sizing lead op operands a = .ok () a')
    (later : a'.symbols.Extends final) :
    Yields AsmError.Unresolved (fun _ b' => Replays origin final a' b')
      (Assembler.sourceInstruction .encoding lead op operands b) := by
  obtain ⟨c, o, led, resolved, done⟩ := sourceInstruction_ok.1 done
  have main : ∀ d, Replays origin final c d →
      Yields AsmError.Unresolved (fun _ b' => Replays origin final a' b')
        (Assembler.sourceInstruction .encoding none op operands d) := by
    intro d replays
    have grown := instruction_grows done
    have settled := replays.settled sized (grown.extends.trans later)
    have source := Scope.operands_ok resolved
    rw [sourceInstruction_none]
    cases result : (d.scope .encoding).operands op operands with
    | error e => exact Scope.operands_unresolved settled source e result
    | ok o' =>
        have alike := source.shape_eq (Scope.operands_ok result)
        have set := replays.withPending ((Scope.segmentOf? operands).or c.pending)
        obtain ⟨b', done', next⟩ := set.instruction alike done
        rw [← replays.pending] at done'
        simp only [done']
        exact next
  cases lead with
  | none =>
      cases led
      exact main b replays
  | some l =>
      obtain ⟨d, led', next⟩ := replays.instruction rfl led
      rw [sourceInstruction_some]
      have first : Yields AsmError.Unresolved (fun _ d => Replays origin final c d)
          (Assembler.instruction .encoding ⟨l, .none⟩ b) := by
        rw [led']
        exact next
      exact first.bind fun _ => main

theorem Replays.startSegment {name : String} (replays : Replays origin final a b)
    {t : SymbolTable} (added : a.symbols.addSegment name = .ok t) (later : t.Extends final) :
    ∃ u, b.symbols.enterSegment name = .ok u ∧
      Replays origin final { a with symbols := t } { b with symbols := u } := by
  obtain ⟨u, entered, table⟩ := replays.table.enterSegment added later
  refine ⟨u, entered, table, replays.sized.addSegment added, replays.pending, replays.unlimited, ?_⟩
  obtain ⟨-, rfl⟩ := SymbolTable.addSegment_ok added
  exact replays.written

theorem Replays.statement {text : List Char} {st : Statement} (replays : Replays origin final a b)
    (sized : final.Sized origin) (done : statement .sizing text st a = .ok () a')
    (later : a'.symbols.Extends final) :
    Yields AsmError.Unresolved (fun _ b' => Replays origin final a' b')
      (Assembler.statement .encoding text st b) := by
  cases st with
  | empty =>
      cases done
      exact replays
  | ignored =>
      cases done
      exact replays
  | segmentStart name =>
      obtain ⟨t, added, rfl⟩ := segmentStart_sizing_ok.1 done
      obtain ⟨u, entered, next⟩ := replays.startSegment added later
      rw [segmentStart_encoding_ok.2 ⟨u, entered, rfl⟩]
      exact next
  | segmentEnd name =>
      obtain ⟨ends, rfl⟩ := segmentEnd_ok.1 done
      have endsToo : b.checkEnds name = .ok () := by
        rw [← ends, checkEnds, checkEnds, replays.currentSegment?_eq]
      rw [segmentEnd_ok.2 ⟨endsToo, rfl⟩]
      exact replays
  | data width items =>
      obtain ⟨bytes, found, done⟩ := dataStatement_ok.1 done
      rw [dataStatement]
      cases result : (b.scope .encoding).data width items with
      | error e =>
          exact Scope.dataFrom_unresolved replays.currentSegment?_eq.symm found e result
      | ok bytes' =>
          have size := Scope.dataFrom_length result found
          obtain ⟨b', done', next⟩ := replays.data size done
          simp only [done']
          exact next
  | instruction lead op operands => exact replays.sourceInstruction sized done later

/-! ## Lines -/

/-- A label that the sizing pass defines is where the encoding pass looks for it, checked or
not. -/
theorem Replays.label {name : String} (replays : Replays origin final a b) {t : SymbolTable}
    (added : a.symbols.addLabel name = .ok t) (later : t.Extends final) :
    (∀ verify, defineLabel .encoding verify name b = .ok () b) ∧
      Replays origin final { a with symbols := t } b := by
  refine ⟨?_, replays.table.addLabel added, replays.sized.addLabel added, replays.pending,
    replays.unlimited, ?_⟩
  · intro verify
    refine defineLabel_encoding_ok.2 ⟨?_, rfl⟩
    obtain ⟨s, current, -, -⟩ := SymbolTable.addLabel_ok added
    have found := replays.table.findLabel added later current
    simp only [checkLabel, replays.currentSegment?_eq, current, found]
    simp
  · obtain ⟨s, -, -, rfl⟩ := SymbolTable.addLabel_ok added
    exact replays.written

theorem Replays.parsedLine {verify : Bool} {text : List Char} {line : Line}
    (replays : Replays origin final a b) (sized : final.Sized origin)
    (done : parsedLine .sizing verify text line a = .ok () a') (later : a'.symbols.Extends final) :
    (∀ verify, Assembler.parsedLine .encoding verify text line b =
      Assembler.statement .encoding text line.statement b) ∧
      Yields AsmError.Unresolved (fun _ b' => Replays origin final a' b')
        (Assembler.statement .encoding text line.statement b) := by
  obtain ⟨label, st⟩ := line
  obtain ⟨c, labelled, done⟩ := parsedLine_ok.1 done
  cases label with
  | none =>
      cases labelled
      exact ⟨fun _ => rfl, replays.statement sized done later⟩
  | some name =>
      obtain ⟨t, added, rfl⟩ := defineLabel_sizing_ok.1 labelled
      obtain ⟨found, next⟩ := replays.label added ((statement_grows done).extends.trans later)
      refine ⟨fun verify => ?_, next.statement sized done later⟩
      rw [parsedLine_some]
      show EStateM.bind _ _ b = _
      rw [EStateM.bind, found verify]

theorem Replays.numberedLine {verify : Bool} {number : Nat} {text : List Char}
    (replays : Replays origin final a b) (sized : final.Sized origin)
    (done : numberedLine .sizing verify number text a = .ok () a')
    (later : a'.symbols.Extends final) (verify' : Bool) :
    Assembler.numberedLine .encoding verify' number text b =
      Assembler.numberedLine .encoding false number text b ∧
      Yields (fun e => e.error.Unresolved) (fun _ b' => Replays origin final a' b')
        (Assembler.numberedLine .encoding verify' number text b) := by
  obtain ⟨line, read, done⟩ := numberedLine_ok.1 done
  have start : Replays origin final { a with line := number } { b with line := number } :=
    ⟨replays.table, replays.sized, replays.pending, replays.unlimited, replays.written⟩
  obtain ⟨same, yields⟩ := start.parsedLine sized done later
  rw [numberedLine_eq number read, numberedLine_eq number read, same, same]
  refine ⟨rfl, ?_⟩
  cases result : Assembler.statement .encoding text line.statement { b with line := number } with
  | ok _ b' =>
      rw [result] at yields
      exact yields
  | error e b' =>
      rw [result] at yields
      exact yields

/-- The encoding pass over lines that the sizing pass got through; checking the labels on the
way makes no difference. -/
theorem Replays.sourceLines {verify : Bool} {number : Nat} {texts : List (List Char)}
    (replays : Replays origin final a b) (sized : final.Sized origin)
    (done : sourceLines .sizing verify number texts a = .ok () a')
    (later : a'.symbols.Extends final) (verify' : Bool) :
    Assembler.sourceLines .encoding verify' number texts b =
      Assembler.sourceLines .encoding false number texts b ∧
      Yields (fun e => e.error.Unresolved) (fun _ b' => Replays origin final a' b')
        (Assembler.sourceLines .encoding verify' number texts b) := by
  induction texts generalizing number a b with
  | nil =>
      cases done
      exact ⟨rfl, replays⟩
  | cons text rest ih =>
      obtain ⟨c, first, done⟩ := sourceLines_cons_ok.1 done
      obtain ⟨same, yields⟩ :=
        replays.numberedLine sized first ((sourceLines_grows done).extends.trans later) verify'
      refine ⟨?_, yields.bind fun _ d next => (ih next done).2⟩
      show EStateM.bind _ _ b = EStateM.bind _ _ b
      rw [EStateM.bind, EStateM.bind, same]
      rw [same] at yields
      cases result : Assembler.numberedLine .encoding false number text b with
      | error e d => rfl
      | ok _ d =>
          rw [result] at yields
          exact (ih yields done).1

end Asm86.Assembly.Assembler
