/-
# Asm86.Proofs.Assembly.Leads -- what repeat and lock words write

A lead is one byte, and an instruction of its own.  A line with leads does what the first of them
does and then what the rest of the line does without leads (`sourceLine_leads`), so the others
leave no byte behind.

Apart from jumps, an instruction is encoded alike before and behind that byte, because values do
not look at the counters.  It only needs one byte more of room (`advance_add`).
-/
import Asm86.Proofs.Assembly.Instructions
import Asm86.Proofs.Assembly.Lines
import Asm86.Proofs.Source.Leads

namespace Asm86.Symbols.SymbolTable

set_option autoImplicit false

/-! ## Moving in two steps -/

theorem Passed.currentSegment? {n : Nat} {t u : SymbolTable} (passed : Passed n t u) :
    ∃ s s', t.currentSegment? = some s ∧ u.currentSegment? = some s' ∧
      s'.counter.toNat = s.counter.toNat + n := by
  obtain ⟨k, s, s', current, found, segments, -, -, counter⟩ := passed.segments
  obtain ⟨inRange, -⟩ := List.getElem?_eq_some_iff.1 found
  refine ⟨s, s', ?_, ?_, counter⟩
  · simp [SymbolTable.currentSegment?, current, found]
  · simp [SymbolTable.currentSegment?, passed.current, current, segments, inRange]

/-- There is a way on exactly when both counters have room. -/
theorem advance_iff_room {t : SymbolTable} {n : Nat} :
    (∃ u, t.advance n = .ok u) ↔ ∃ s, t.currentSegment? = some s ∧
      s.counter.toNat + n < 65536 ∧ t.imageCounter.toNat + n < 4294967296 := by
  constructor
  · rintro ⟨u, moved⟩
    obtain ⟨i, s, address, current, found, room, reached, -⟩ := advance_ok.1 moved
    have place := addressAt_ok.1 reached
    have below := address.toNat_lt
    exact ⟨s, by simp [SymbolTable.currentSegment?, current, found], room, by omega⟩
  · rintro ⟨s, current, room, space⟩
    obtain ⟨u, moved, -⟩ := advance_passed current room space
    exact ⟨u, moved⟩

/-- As far as two steps lead, one does. -/
theorem advance_add {t : SymbolTable} {m n : Nat} :
    (∃ u, t.advance (m + n) = .ok u) ↔ ∃ u, t.advance m = .ok u ∧ ∃ v, u.advance n = .ok v := by
  have second : ∀ {u s}, t.currentSegment? = some s → Passed m t u →
      ((∃ v, u.advance n = .ok v) ↔
        s.counter.toNat + m + n < 65536 ∧ t.imageCounter.toNat + m + n < 4294967296) := by
    intro u s current passed
    obtain ⟨_, s', current', there, counter⟩ := passed.currentSegment?
    cases current.symm.trans current'
    rw [advance_iff_room, there, passed.image]
    simp [counter]
  constructor
  · intro whole
    obtain ⟨s, current, room, space⟩ := advance_iff_room.1 whole
    obtain ⟨u, moved, passed⟩ :=
      advance_passed (n := m) current (by omega) (by omega)
    exact ⟨u, moved, (second current passed).2 ⟨by omega, by omega⟩⟩
  · rintro ⟨u, moved, onward⟩
    obtain ⟨s, current, room, space⟩ := advance_iff_room.1 ⟨u, moved⟩
    obtain ⟨u', moved', passed⟩ := advance_passed current room space
    cases moved.symm.trans moved'
    obtain ⟨room', space'⟩ := (second current passed).1 onward
    exact advance_iff_room.2 ⟨s, current, by omega, by omega⟩

end Asm86.Symbols.SymbolTable

namespace Asm86.Assembly

open Asm86.Checked
open Asm86.Machine
open Asm86.Encoding
open Asm86.Source
open Asm86.Symbols
open Asm86.Output

set_option autoImplicit false

namespace Assembler

variable {p op : Operation} {ps : List Operation} {operands : List Operand}
  {front line : List Char} {a b c : Assembler}

/-! ## The lines -/

theorem sourceLine_instruction {lead : Option Operation}
    (read : Line.parse line = .ok ⟨none, .instruction lead op operands⟩) (phase : Phase)
    (verify : Bool) :
    sourceLine phase verify line = sourceInstruction phase lead op operands := by
  unfold sourceLine
  rw [read]
  rfl

/-- The first lead, and then the line without leads. -/
theorem sourceLine_leads (leads : Leads (p :: ps) front)
    (read : Line.parse line = .ok ⟨none, .instruction none op operands⟩) (phase : Phase)
    (verify : Bool) :
    sourceLine phase verify (front ++ line) =
      instruction phase ⟨p, .none⟩ >>= fun _ => sourceLine phase verify line := by
  rw [sourceLine_instruction (leads.parse_append read), sourceLine_instruction read]
  exact sourceInstruction_some phase p op operands

/-! ## The byte of a lead -/

/-- The byte of an operation that can lead: REPNE, LOCK, or else REP. -/
def leadByte : Operation → UInt8
  | .repne => 0xF2
  | .lock => 0xF0
  | _ => 0xF3

theorem plan_lead (lead : isLead p = true) :
    Encoding.plan ⟨p, .none⟩ none = .ok (Layout.op (leadByte p)) := by
  unfold isLead at lead
  split at lead
  · rfl
  · rfl
  · rfl
  · cases lead

/-- The state behind a lead. -/
def afterLead (a : Assembler) (t : SymbolTable) (p : Operation) : Assembler :=
  a.afterWriting t [leadByte p] (Instruction.text ⟨p, .none⟩)

theorem lead_encoding_ok (lead : isLead p = true) (idle : a.pending = none)
    (unlimited : a.sink.capacity = none) :
    instruction .encoding ⟨p, .none⟩ a = .ok () b ↔
      ∃ t, a.symbols.advance 1 = .ok t ∧ b = a.afterLead t p := by
  have same : ({ a with pending := none } : Assembler) = a := by rw [← idle]
  rw [instruction_encoding_ok unlimited, idle, plan_lead lead, same]
  constructor
  · rintro ⟨layout, t, planned, moved, rfl⟩
    cases planned
    exact ⟨t, moved, rfl⟩
  · rintro ⟨t, moved, rfl⟩
    exact ⟨_, t, rfl, moved, rfl⟩

/-! ## The instruction behind it -/

theorem sourceInstruction_encoding_ok (idle : a.pending = none)
    (unlimited : a.sink.capacity = none) :
    sourceInstruction .encoding none op operands a = .ok () c ↔
      ∃ o layout t, (a.scope .encoding).operands op operands = .ok o ∧
        Encoding.plan ⟨op, o⟩ (Scope.segmentOf? operands) = .ok layout ∧
        a.symbols.advance layout.size = .ok t ∧
        c = a.afterWriting t layout.bytes (Instruction.text ⟨op, o⟩) := by
  have same : ({ a with pending := none } : Assembler) = a := by rw [← idle]
  have override : (Scope.segmentOf? operands).or a.pending = Scope.segmentOf? operands := by
    rw [idle, Option.or_none]
  rw [sourceInstruction_ok]
  constructor
  · rintro ⟨_, o, rfl, resolved, done⟩
    obtain ⟨layout, t, planned, moved, rfl⟩ := instruction_encodes done
    rw [override] at planned
    exact ⟨o, layout, t, resolved, planned, moved, by rw [same]⟩
  · rintro ⟨o, layout, t, resolved, planned, moved, rfl⟩
    refine ⟨a, o, rfl, resolved, (instruction_encoding_ok (by exact unlimited)).2 ?_⟩
    rw [← override] at planned
    exact ⟨layout, t, planned, moved, by rw [same]⟩

/-- Moving on keeps the value of every number. -/
theorem advance_value {t u : SymbolTable} {n : Nat} (moved : t.advance n = .ok u) (phase : Phase)
    (e : Expr) : Scope.value ⟨u, phase⟩ e = Scope.value ⟨t, phase⟩ e := by
  obtain ⟨segment, labels⟩ := advance_frame moved
  simp only [Scope.value, SymbolTable.resolve?_congr labels segment]

theorem advance_operands {t u : SymbolTable} {n : Nat} (moved : t.advance n = .ok u)
    (fixed : ∀ e, operands = [.imm e] → op.isRelative = false) (phase : Phase) :
    Scope.operands ⟨u, phase⟩ op operands = Scope.operands ⟨t, phase⟩ op operands := by
  refine Scope.operands_congr (advance_value moved phase) fun e lone => ?_
  rw [Scope.single_eq_immediate (fixed e lone), Scope.single_eq_immediate (fixed e lone)]
  simp only [Scope.immediate, advance_value moved phase]

/-- An instruction that can be encoded here can be encoded behind a lead, given the room. -/
theorem sourceLine_leads_ok (leads : Leads (p :: ps) front)
    (read : Line.parse line = .ok ⟨none, .instruction none op operands⟩)
    (fixed : ∀ e, operands = [.imm e] → op.isRelative = false) (idle : a.pending = none)
    (unlimited : a.sink.capacity = none) {o : Operands} {layout : Layout}
    (resolved : (a.scope .encoding).operands op operands = .ok o)
    (planned : Encoding.plan ⟨op, o⟩ (Scope.segmentOf? operands) = .ok layout) (verify : Bool) :
    sourceLine .encoding verify (front ++ line) a = .ok () c ↔
      ∃ u, a.symbols.advance 1 = .ok u ∧ ∃ v, u.advance layout.size = .ok v ∧
        c = (a.afterLead u p).afterWriting v layout.bytes (Instruction.text ⟨op, o⟩) := by
  have lead := leads.head_isLead
  rw [sourceLine_leads leads read, step_bind_ok, sourceLine_instruction read]
  constructor
  · rintro ⟨_, b, led, done⟩
    obtain ⟨u, moved, rfl⟩ := (lead_encoding_ok lead idle unlimited).1 led
    obtain ⟨o', layout', v, resolved', planned', moved', rfl⟩ :=
      (sourceInstruction_encoding_ok (a := a.afterLead u p) idle unlimited).1 done
    have same := (advance_operands moved fixed .encoding).symm.trans resolved'
    cases same.symm.trans resolved
    cases planned'.symm.trans planned
    exact ⟨u, moved, v, moved', rfl⟩
  · rintro ⟨u, moved, v, moved', rfl⟩
    have resolved' := (advance_operands moved fixed .encoding).trans resolved
    exact ⟨(), a.afterLead u p, (lead_encoding_ok lead idle unlimited).2 ⟨u, moved, rfl⟩,
      (sourceInstruction_encoding_ok (a := a.afterLead u p) idle unlimited).2
        ⟨o, layout, v, resolved', planned, moved', rfl⟩⟩

theorem afterLead_appends (unlimited : a.sink.capacity = none) (t u : SymbolTable)
    (bytes : List UInt8) (text : String) :
    Appends (leadByte p :: bytes) a.sink ((a.afterLead t p).afterWriting u bytes text).sink := by
  refine ⟨unlimited, ?_⟩
  rw [afterWriting_bytes, afterLead, afterWriting_bytes, List.append_assoc]
  rfl

/-- **Only the first lead is written.**  A line with leads does what the first of them and then
the line without them do, in either pass.  Let the line without them be encoded and be no relative
jump.  With the leads it is accepted exactly when one byte more has room, and then it writes the
byte of the first lead and what it writes without leads.  These are the bytes of all leads and
then the line's own only when there is a single lead. -/
theorem leads_write_first (leads : Leads (p :: ps) front)
    (read : Line.parse line = .ok ⟨none, .instruction none op operands⟩) :
    (∀ phase verify, sourceLine phase verify (front ++ line) =
      instruction phase ⟨p, .none⟩ >>= fun _ => sourceLine phase verify line) ∧
    ((∀ e, operands = [.imm e] → op.isRelative = false) → ∀ verify (a b : Assembler),
      a.pending = none → a.sink.capacity = none → sourceLine .encoding verify line a = .ok () b →
        ∃ bytes, Appends bytes a.sink b.sink ∧
          ((∃ c, sourceLine .encoding verify (front ++ line) a = .ok () c) ↔
            ∃ t, a.symbols.advance (1 + bytes.length) = .ok t) ∧
          ∀ c, sourceLine .encoding verify (front ++ line) a = .ok () c →
            Appends (leadByte p :: bytes) a.sink c.sink ∧
            (Appends ((p :: ps).map leadByte ++ bytes) a.sink c.sink ↔ ps = [])) := by
  refine ⟨sourceLine_leads leads read, ?_⟩
  intro fixed verify a b idle unlimited done
  rw [sourceLine_instruction read, sourceInstruction_encoding_ok idle unlimited] at done
  obtain ⟨o, layout, t, resolved, planned, -, rfl⟩ := done
  have led := fun c =>
    sourceLine_leads_ok (c := c) leads read fixed idle unlimited resolved planned verify
  refine ⟨layout.bytes, ⟨unlimited, afterWriting_bytes ..⟩, ?_, ?_⟩
  · rw [layout.length_bytes, SymbolTable.advance_add]
    constructor
    · rintro ⟨c, done⟩
      obtain ⟨u, moved, v, moved', -⟩ := (led c).1 done
      exact ⟨u, moved, v, moved'⟩
    · rintro ⟨u, moved, v, moved'⟩
      exact ⟨_, (led _).2 ⟨u, moved, v, moved', rfl⟩⟩
  · intro c done
    obtain ⟨u, -, v, -, rfl⟩ := (led c).1 done
    have written := afterLead_appends (p := p) unlimited u v layout.bytes
      (Instruction.text ⟨op, o⟩)
    refine ⟨written, fun all => ?_, ?_⟩
    · have same := List.append_cancel_left (all.2.symm.trans written.2)
      have length := congrArg List.length same
      simpa using length
    · rintro rfl
      exact written

/-- Two leads before a string instruction, where a third byte would not fit. -/
theorem leads_write_first_of_two :
    let a : Assembler := { symbols := ⟨[⟨"C", 0, 65533⟩], [], some 0, 65533⟩ }
    ∃ b c, sourceLine .encoding true "MOVSB".toList a = .ok () b ∧
      sourceLine .encoding true "REPE\t lock MOVSB".toList a = .ok () c ∧
      Appends [0xA4] a.sink b.sink ∧ Appends [0xF3, 0xA4] a.sink c.sink ∧
      ¬ Appends [0xF3, 0xF0, 0xA4] a.sink c.sink := by
  intro a
  have lock : Leads [.lock] "lock ".toList :=
    @Leads.cons .lock [] "lock".toList [' '] [] (by decide) rfl (by decide) (by decide) .nil
  have leads : Leads [.rep, .lock] "REPE\t lock ".toList :=
    @Leads.cons .rep [.lock] "REPE".toList ['\t', ' '] _ (by decide) rfl (by decide) (by decide)
      lock
  have read : Line.parse "MOVSB".toList = .ok ⟨none, .instruction none .movsb []⟩ := by
    decide +kernel
  have done : sourceLine .encoding true "MOVSB".toList a =
      .ok () (a.afterWriting ⟨[⟨"C", 0, 65534⟩], [], some 0, 65534⟩ [0xA4]
        (Instruction.text ⟨.movsb, .none⟩)) := by
    rw [sourceLine_instruction read]
    exact (sourceInstruction_encoding_ok rfl rfl).2 ⟨.none, _, _, rfl, rfl, rfl, rfl⟩
  obtain ⟨bytes, alone, accepted, written⟩ := (leads_write_first leads read).2
    (fun _ impossible => nomatch impossible) true a _ rfl rfl done
  have only : [0xA4] = bytes := alone.2
  subst only
  obtain ⟨c, led⟩ := accepted.2 ⟨_, rfl⟩
  obtain ⟨first, all⟩ := written c led
  exact ⟨_, c, done, led, alone, first, fun both => nomatch all.1 both⟩

/-- The lock of a repeated instruction is lost. -/
theorem lock_behind_repeat_lost :
    assemble "C SEGMENT\nMOVSB\n" {} = .ok ⟨⟨0, #[0xA4]⟩, [⟨.segment, "", "C", 1, 0⟩], []⟩ ∧
      assemble "C SEGMENT\nREP LOCK MOVSB\n" {} =
        .ok ⟨⟨0, #[0xF3, 0xA4]⟩, [⟨.segment, "", "C", 2, 0⟩], []⟩ ∧
      [Operation.rep, .lock].map leadByte ++ [0xA4] = [0xF3, 0xF0, 0xA4] := by
  refine ⟨?_, ?_, rfl⟩ <;> decide +kernel

end Assembler

end Asm86.Assembly
