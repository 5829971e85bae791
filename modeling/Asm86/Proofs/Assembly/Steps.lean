/-
# Asm86.Proofs.Assembly.Steps -- what the steps of an assembler do

A step that succeeds is taken apart once: `instruction_sizing_ok`, `instruction_encoding_ok`
and their likes say which state it leaves.  The steps of the sizing pass move the symbol
table only by defining and advancing (`sourceLines_grows`), so what `SymbolTable.Sized`
and `SymbolTable.Extends` say of single steps holds of a whole pass.

`Yields` is for the steps of the encoding pass: a step either succeeds with a state of which
something holds, or fails with a fault of a certain kind.
-/
import Asm86.Assembly.Pass
import Asm86.Proofs.Symbols.Growth

namespace Asm86.Assembly

open Asm86.Checked
open Asm86.Machine
open Asm86.Encoding
open Asm86.Source
open Asm86.Symbols
open Asm86.Output

set_option autoImplicit false

/-! ## Sequences of steps -/

section Sequences

variable {ε σ α β : Type}

theorem step_bind_ok {x : EStateM ε σ α} {f : α → EStateM ε σ β} {a c : σ} {v : β} :
    (x >>= f) a = .ok v c ↔ ∃ u b, x a = .ok u b ∧ f u b = .ok v c := by
  show EStateM.bind x f a = .ok v c ↔ _
  unfold EStateM.bind
  cases x a <;> simp

/-- The step succeeds and `post` holds of its result, or it fails with such a fault. -/
def Yields (fault : ε → Prop) (post : α → σ → Prop) : EStateM.Result ε σ α → Prop
  | .ok v b => post v b
  | .error e _ => fault e

theorem Yields.bind {fault : ε → Prop} {middle : α → σ → Prop} {post : β → σ → Prop}
    {x : EStateM ε σ α} {f : α → EStateM ε σ β} {a : σ} (first : Yields fault middle (x a))
    (second : ∀ v b, middle v b → Yields fault post (f v b)) : Yields fault post ((x >>= f) a) := by
  show Yields fault post (EStateM.bind x f a)
  unfold EStateM.bind
  cases result : x a with
  | ok v b =>
      rw [result] at first
      exact second v b first
  | error e b =>
      rw [result] at first
      exact first

end Sequences

namespace Assembler

/-! ## Elementary steps -/

theorem ofExcept_ok {α : Type} {x : Except AsmError α} {a b : Assembler} {v : α} :
    ofExcept x a = .ok v b ↔ x = .ok v ∧ b = a := by
  cases x <;> simp [ofExcept, eq_comm]

theorem updateSymbols_ok {f : SymbolTable → Except SymbolError SymbolTable} {a b : Assembler} {v : Unit} :
    updateSymbols f a = .ok v b ↔ ∃ t, f a.symbols = .ok t ∧ b = { a with symbols := t } := by
  unfold updateSymbols
  cases f a.symbols <;> simp [eq_comm]

theorem plan_ok {i : Instruction} {a b : Assembler} {layout : Layout} :
    plan i a = .ok layout b ↔
      Encoding.plan i a.pending = .ok layout ∧ b = { a with pending := none } := by
  unfold plan
  cases Encoding.plan i a.pending <;> simp [eq_comm]

/-- A sink without a capacity takes everything. -/
theorem emit_unlimited {a : Assembler} (unlimited : a.sink.capacity = none) (bytes : List UInt8) :
    emit bytes a = .ok () { a with sink := { a.sink with bytes := a.sink.bytes ++ bytes } } := by
  simp [emit, Sink.emit, Sink.room, unlimited]

/-- A sink that reports no fault has taken everything. -/
theorem emit_ok {bytes : List UInt8} {a b : Assembler} {v : Unit}
    (written : emit bytes a = .ok v b) :
    b = { a with sink := { a.sink with bytes := a.sink.bytes ++ bytes } } := by
  by_cases full : a.sink.room bytes.length < bytes.length
  · simp [emit, Sink.emit, full] at written
  · have whole : bytes.take (a.sink.room bytes.length) = bytes := List.take_of_length_le (by omega)
    simpa [emit, Sink.emit, full, whole, eq_comm] using written

/-! ## Instructions and data -/

theorem instruction_sizing_ok {i : Instruction} {a b : Assembler} :
    instruction .sizing i a = .ok () b ↔
      ∃ layout t, Encoding.plan i a.pending = .ok layout ∧ a.symbols.advance layout.size = .ok t ∧
        b = { a with symbols := t, pending := none } := by
  simp only [instruction, sizeInstruction, advance, step_bind_ok, plan_ok, updateSymbols_ok]
  constructor
  · rintro ⟨_, _, ⟨layout, _, ⟨planned, rfl⟩, _, _, ⟨t, moved, rfl⟩, same⟩, done⟩
    cases same
    cases done
    exact ⟨layout, t, planned, moved, rfl⟩
  · rintro ⟨layout, t, planned, moved, rfl⟩
    exact ⟨_, _, ⟨layout, _, ⟨planned, rfl⟩, (), _, ⟨t, moved, rfl⟩, rfl⟩, rfl⟩

/-- The state after bytes have been counted, written and listed. -/
def afterWriting (a : Assembler) (t : SymbolTable) (bytes : List UInt8) (text : String) : Assembler :=
  let b := { a with symbols := t, sink := { a.sink with bytes := a.sink.bytes ++ bytes } }
  { b with rows := b.rows.map fun rows => rows.push (b.rowOf bytes text) }

@[simp] theorem afterWriting_symbols (a : Assembler) (t : SymbolTable) (bytes : List UInt8)
    (text : String) : (a.afterWriting t bytes text).symbols = t := rfl

@[simp] theorem afterWriting_pending (a : Assembler) (t : SymbolTable) (bytes : List UInt8)
    (text : String) : (a.afterWriting t bytes text).pending = a.pending := rfl

@[simp] theorem afterWriting_sink (a : Assembler) (t : SymbolTable) (bytes : List UInt8)
    (text : String) : (a.afterWriting t bytes text).sink =
      { a.sink with bytes := a.sink.bytes ++ bytes } := rfl

theorem afterWriting_size (a : Assembler) (t : SymbolTable) (bytes : List UInt8) (text : String) :
    (a.afterWriting t bytes text).sink.bytes.size = a.sink.bytes.size + bytes.length := by
  rw [afterWriting_sink, ← Array.length_toList, Array.toList_appendList, List.length_append,
    Array.length_toList]

/-- What an instruction does that is encoded, whatever the sink. -/
theorem instruction_encodes {i : Instruction} {a b : Assembler}
    (done : instruction .encoding i a = .ok () b) :
    ∃ layout t, Encoding.plan i a.pending = .ok layout ∧ a.symbols.advance layout.size = .ok t ∧
      b = ({ a with pending := none } : Assembler).afterWriting t layout.bytes i.text := by
  simp only [instruction, encodeInstruction, advance, step_bind_ok, plan_ok,
    updateSymbols_ok] at done
  obtain ⟨_, _, ⟨layout, _, ⟨planned, rfl⟩, _, _, ⟨t, moved, rfl⟩, _, _, written, same⟩, listed⟩ :=
    done
  cases emit_ok written
  cases same
  cases listed
  exact ⟨_, t, planned, moved, rfl⟩

theorem instruction_encoding_ok {i : Instruction} {a b : Assembler}
    (unlimited : a.sink.capacity = none) :
    instruction .encoding i a = .ok () b ↔
      ∃ layout t, Encoding.plan i a.pending = .ok layout ∧ a.symbols.advance layout.size = .ok t ∧
        b = ({ a with pending := none } : Assembler).afterWriting t layout.bytes i.text := by
  refine ⟨instruction_encodes, ?_⟩
  simp only [instruction, encodeInstruction, advance, step_bind_ok, plan_ok, updateSymbols_ok]
  rintro ⟨layout, t, planned, moved, rfl⟩
  exact ⟨_, _, ⟨layout, _, ⟨planned, rfl⟩, (), _, ⟨t, moved, rfl⟩, (), _,
    emit_unlimited (by exact unlimited) _, rfl⟩, rfl⟩

theorem advanceData_ok {bytes : List UInt8} {a b : Assembler} {v : Unit} :
    advanceData bytes a = .ok v b ↔
      ∃ t, a.symbols.advance bytes.length = .ok t ∧ b = { a with symbols := t } := by
  unfold advanceData
  split
  · exact updateSymbols_ok
  · rename_i long
    simp only [reduceCtorEq, false_iff, not_exists, not_and]
    intro t moved
    obtain ⟨i, s, address, -, -, fits, -⟩ := SymbolTable.advance_ok.1 moved
    omega

theorem data_sizing_ok {bytes : List UInt8} {text : String} {a b : Assembler} :
    data .sizing bytes text a = .ok () b ↔
      ∃ t, a.symbols.advance bytes.length = .ok t ∧ b = { a with symbols := t } :=
  advanceData_ok

theorem data_encodes {bytes : List UInt8} {text : String} {a b : Assembler}
    (done : data .encoding bytes text a = .ok () b) :
    ∃ t, a.symbols.advance bytes.length = .ok t ∧ b = a.afterWriting t bytes text := by
  simp only [data, emitData, step_bind_ok, advanceData_ok] at done
  obtain ⟨_, _, ⟨_, _, ⟨t, moved, rfl⟩, written⟩, listed⟩ := done
  cases emit_ok written
  cases listed
  exact ⟨t, moved, rfl⟩

theorem data_encoding_ok {bytes : List UInt8} {text : String} {a b : Assembler}
    (unlimited : a.sink.capacity = none) :
    data .encoding bytes text a = .ok () b ↔
      ∃ t, a.symbols.advance bytes.length = .ok t ∧ b = a.afterWriting t bytes text := by
  refine ⟨data_encodes, ?_⟩
  simp only [data, emitData, step_bind_ok, advanceData_ok]
  rintro ⟨t, moved, rfl⟩
  exact ⟨(), _, ⟨(), _, ⟨t, moved, rfl⟩, emit_unlimited (by exact unlimited) _⟩, rfl⟩

/-! ## Statements and lines -/

/-- An instruction without a lead is resolved and then done under the override that its
operands ask for. -/
theorem sourceInstruction_none (phase : Phase) (op : Operation) (operands : List Operand)
    (a : Assembler) :
    sourceInstruction phase none op operands a =
      match (a.scope phase).operands op operands with
      | .ok o => instruction phase ⟨op, o⟩
          { a with pending := (Scope.segmentOf? operands).or a.pending }
      | .error e => .error e a := by
  have read : sourceInstruction phase none op operands a =
      (ofExcept ((a.scope phase).instruction op operands) >>= fun i =>
        (Scope.segmentOf? operands).elim (instruction phase i)
          fun s => setOverride s >>= fun _ => instruction phase i) a := by
    unfold sourceInstruction
    cases Scope.segmentOf? operands <;> rfl
  rw [read, Scope.instruction]
  cases (a.scope phase).operands op operands with
  | error e => rfl
  | ok o => cases Scope.segmentOf? operands <;> rfl

theorem sourceInstruction_some (phase : Phase) (l op : Operation) (operands : List Operand) :
    sourceInstruction phase (some l) op operands =
      instruction phase ⟨l, .none⟩ >>= fun _ => sourceInstruction phase none op operands := rfl

/-- An instruction line is its lead, if any, and then the instruction itself under the
override that its operands ask for. -/
theorem sourceInstruction_ok {phase : Phase} {lead : Option Operation} {op : Operation}
    {operands : List Operand} {a c : Assembler} :
    sourceInstruction phase lead op operands a = .ok () c ↔
      ∃ b o, (lead.elim (b = a) fun l => instruction phase ⟨l, .none⟩ a = .ok () b) ∧
        (b.scope phase).operands op operands = .ok o ∧
        instruction phase ⟨op, o⟩
          { b with pending := (Scope.segmentOf? operands).or b.pending } = .ok () c := by
  have plain : ∀ b : Assembler, sourceInstruction phase none op operands b = .ok () c ↔
      ∃ o, (b.scope phase).operands op operands = .ok o ∧
        instruction phase ⟨op, o⟩
          { b with pending := (Scope.segmentOf? operands).or b.pending } = .ok () c := by
    intro b
    rw [sourceInstruction_none]
    cases (b.scope phase).operands op operands <;> simp
  cases lead with
  | none => simp [plain]
  | some l =>
      rw [sourceInstruction_some, step_bind_ok]
      constructor
      · rintro ⟨_, b, led, done⟩
        obtain ⟨o, resolved, done⟩ := (plain b).1 done
        exact ⟨b, o, led, resolved, done⟩
      · rintro ⟨b, o, led, resolved, done⟩
        exact ⟨(), b, led, (plain b).2 ⟨o, resolved, done⟩⟩

theorem parsedLine_none (phase : Phase) (verify : Bool) (text : List Char) (st : Statement) :
    parsedLine phase verify text ⟨none, st⟩ = statement phase text st := rfl

theorem parsedLine_some (phase : Phase) (verify : Bool) (text : List Char) (name : String)
    (st : Statement) :
    parsedLine phase verify text ⟨some name, st⟩ =
      defineLabel phase verify name >>= fun _ => statement phase text st := rfl

/-- A line is its label and then its statement. -/
theorem parsedLine_ok {phase : Phase} {verify : Bool} {text : List Char} {line : Line}
    {a c : Assembler} :
    parsedLine phase verify text line a = .ok () c ↔
      ∃ b, (line.label.elim (b = a) fun name => defineLabel phase verify name a = .ok () b) ∧
        statement phase text line.statement b = .ok () c := by
  obtain ⟨label, st⟩ := line
  cases label with
  | none => simp [parsedLine_none]
  | some name =>
      rw [parsedLine_some, step_bind_ok]
      constructor
      · rintro ⟨_, b, labelled, done⟩
        exact ⟨b, labelled, done⟩
      · rintro ⟨b, labelled, done⟩
        exact ⟨(), b, labelled, done⟩

theorem defineLabel_sizing_ok {verify : Bool} {name : String} {a b : Assembler} :
    defineLabel .sizing verify name a = .ok () b ↔
      ∃ t, a.symbols.addLabel name = .ok t ∧ b = { a with symbols := t } :=
  updateSymbols_ok (f := fun t => t.addLabel name)

theorem defineLabel_encoding_ok {verify : Bool} {name : String} {a b : Assembler} :
    defineLabel .encoding verify name a = .ok () b ↔ a.checkLabel verify name = .ok () ∧ b = a :=
  ofExcept_ok

theorem segmentStart_sizing_ok {text : List Char} {name : String} {a b : Assembler} :
    statement .sizing text (.segmentStart name) a = .ok () b ↔
      ∃ t, a.symbols.addSegment name = .ok t ∧ b = { a with symbols := t } :=
  updateSymbols_ok (f := fun t => t.addSegment name)

theorem segmentStart_encoding_ok {text : List Char} {name : String} {a b : Assembler} :
    statement .encoding text (.segmentStart name) a = .ok () b ↔
      ∃ t, a.symbols.enterSegment name = .ok t ∧ b = { a with symbols := t } :=
  updateSymbols_ok (f := fun t => t.enterSegment name)

theorem segmentEnd_ok {phase : Phase} {text : List Char} {name : String} {a b : Assembler} :
    statement phase text (.segmentEnd name) a = .ok () b ↔ a.checkEnds name = .ok () ∧ b = a :=
  ofExcept_ok

theorem dataStatement (phase : Phase) (text : List Char) (width : Width) (items : List DataItem)
    (a : Assembler) :
    statement phase text (.data width items) a =
      match (a.scope phase).data width items with
      | .ok bytes => data phase bytes (String.ofList (Text.trim text)) a
      | .error e => .error e a := by
  have read : statement phase text (.data width items) a =
      (ofExcept ((a.scope phase).data width items) >>= fun bytes =>
        data phase bytes (String.ofList (Text.trim text))) a := rfl
  rw [read]
  cases (a.scope phase).data width items <;> rfl

theorem dataStatement_ok {phase : Phase} {text : List Char} {width : Width}
    {items : List DataItem} {a b : Assembler} :
    statement phase text (.data width items) a = .ok () b ↔
      ∃ bytes, (a.scope phase).data width items = .ok bytes ∧
        data phase bytes (String.ofList (Text.trim text)) a = .ok () b := by
  rw [dataStatement]
  cases (a.scope phase).data width items <;> simp

/-- A line that can be read is its label and its statement, with its number on faults. -/
theorem numberedLine_eq {phase : Phase} {verify : Bool} (number : Nat) {text : List Char}
    {line : Line} (read : Line.parse text = .ok line) (a : Assembler) :
    numberedLine phase verify number text a =
      match parsedLine phase verify text line { a with line := number } with
      | .ok _ b => .ok () b
      | .error e b => .error ⟨number, e⟩ b := by
  have inner : sourceLine phase verify text { a with line := number } =
      parsedLine phase verify text line { a with line := number } := by
    unfold sourceLine
    rw [read]
    rfl
  unfold numberedLine
  cases result : parsedLine phase verify text line { a with line := number } <;>
    simp only [inner, result]

theorem numberedLine_ok {phase : Phase} {verify : Bool} {number : Nat} {text : List Char}
    {a b : Assembler} :
    numberedLine phase verify number text a = .ok () b ↔
      ∃ line, Line.parse text = .ok line ∧
        parsedLine phase verify text line { a with line := number } = .ok () b := by
  cases read : Line.parse text with
  | error e =>
      have failed : numberedLine phase verify number text a =
          .error ⟨number, .parse e⟩ { a with line := number } := by
        unfold numberedLine sourceLine
        rw [read]
        rfl
      simp [failed]
  | ok line =>
      rw [numberedLine_eq number read]
      cases result : parsedLine phase verify text line { a with line := number } <;> simp [result]

theorem sourceLines_cons_ok {phase : Phase} {verify : Bool} {number : Nat} {text : List Char}
    {rest : List (List Char)} {a c : Assembler} :
    sourceLines phase verify number (text :: rest) a = .ok () c ↔
      ∃ b, numberedLine phase verify number text a = .ok () b ∧
        sourceLines phase verify (number + 1) rest b = .ok () c := by
  rw [sourceLines, step_bind_ok]
  constructor
  · rintro ⟨_, b, first, done⟩
    exact ⟨b, first, done⟩
  · rintro ⟨b, first, done⟩
    exact ⟨(), b, first, done⟩

/-! ## The sizing pass only lets the table grow -/

theorem instruction_grows {i : Instruction} {a b : Assembler}
    (done : instruction .sizing i a = .ok () b) : a.symbols.Grows b.symbols := by
  obtain ⟨layout, t, -, moved, rfl⟩ := instruction_sizing_ok.1 done
  exact .advance moved (.refl _)

theorem statement_grows {text : List Char} {st : Statement} {a b : Assembler}
    (done : statement .sizing text st a = .ok () b) : a.symbols.Grows b.symbols := by
  cases st with
  | empty =>
      cases done
      exact .refl _
  | ignored =>
      cases done
      exact .refl _
  | segmentStart name =>
      obtain ⟨t, added, rfl⟩ := segmentStart_sizing_ok.1 done
      exact .addSegment added (.refl _)
  | segmentEnd name =>
      obtain ⟨-, rfl⟩ := segmentEnd_ok.1 done
      exact .refl _
  | data width items =>
      obtain ⟨bytes, -, done⟩ := dataStatement_ok.1 done
      obtain ⟨t, moved, rfl⟩ := data_sizing_ok.1 done
      exact .advance moved (.refl _)
  | instruction lead op operands =>
      obtain ⟨c, o, led, -, done⟩ := sourceInstruction_ok.1 done
      have main := instruction_grows done
      cases lead with
      | none =>
          cases led
          exact main
      | some l => exact (instruction_grows led).trans main

theorem numberedLine_grows {verify : Bool} {number : Nat} {text : List Char} {a b : Assembler}
    (done : numberedLine .sizing verify number text a = .ok () b) : a.symbols.Grows b.symbols := by
  obtain ⟨⟨label, st⟩, -, done⟩ := numberedLine_ok.1 done
  obtain ⟨c, labelled, done⟩ := parsedLine_ok.1 done
  have main := statement_grows done
  cases label with
  | none =>
      cases labelled
      exact main
  | some name =>
      obtain ⟨t, added, rfl⟩ := defineLabel_sizing_ok.1 labelled
      exact .addLabel added main

theorem sourceLines_grows {verify : Bool} {number : Nat} {texts : List (List Char)}
    {a b : Assembler} (done : sourceLines .sizing verify number texts a = .ok () b) :
    a.symbols.Grows b.symbols := by
  induction texts generalizing number a with
  | nil =>
      cases done
      exact .refl _
  | cons text rest ih =>
      obtain ⟨c, first, done⟩ := sourceLines_cons_ok.1 done
      exact (numberedLine_grows first).trans (ih done)

end Assembler

end Asm86.Assembly
