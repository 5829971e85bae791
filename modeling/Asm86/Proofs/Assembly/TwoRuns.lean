/-
# Asm86.Proofs.Assembly.TwoRuns -- what two runs over the same lines have in common

A pass has two outputs, the sink and the rows of the listing, and no step looks at either.  A
step is `Quiet` when it leaves them alone.  The steps of a line are quiet ones, writing to the
sink, and adding a row, in sequence.

So a relation between the steps of two runs has to be checked for these three and for
sequences only (`StepRelation`); then it holds between the runs over a whole line
(`StepRelation.sourceLine`), also when the two texts of the line differ but are read alike.
-/
import Asm86.Proofs.Assembly.Instructions

namespace Asm86.Assembly

open Asm86.Machine
open Asm86.Source
open Asm86.Symbols
open Asm86.Output

set_option autoImplicit false

@[simp] theorem ending_ok {ε σ α : Type} (v : α) (a : σ) :
    ending (.ok v a : EStateM.Result ε σ α) = a := rfl

@[simp] theorem ending_error {ε σ α : Type} (e : ε) (a : σ) :
    ending (.error e a : EStateM.Result ε σ α) = a := rfl

/-- A result whose final state is changed by `f`. -/
def mapEnding {ε σ α : Type} (f : σ → σ) : EStateM.Result ε σ α → EStateM.Result ε σ α
  | .ok v a => .ok v (f a)
  | .error e a => .error e (f a)

theorem ending_mapEnding {ε σ α : Type} (f : σ → σ) (r : EStateM.Result ε σ α) :
    ending (mapEnding f r) = f (ending r) := by
  cases r <;> rfl

theorem step_bind_of_ok {ε σ α β : Type} {x : EStateM ε σ α} {f : α → EStateM ε σ β}
    {a b : σ} {v : α} (done : x a = .ok v b) : (x >>= f) a = f v b := by
  show EStateM.bind x f a = _
  simp only [EStateM.bind, done]

theorem step_bind_of_error {ε σ α β : Type} {x : EStateM ε σ α} {f : α → EStateM ε σ β}
    {a b : σ} {e : ε} (failed : x a = .error e b) : (x >>= f) a = .error e b := by
  show EStateM.bind x f a = _
  simp only [EStateM.bind, failed]

namespace Assembler

/-! ## Steps that leave the outputs alone -/

/-- The state with other outputs. -/
def withOutputs (sink : Sink) (rows : Option (Array Row)) (a : Assembler) : Assembler :=
  { a with sink, rows }

/-- A step that neither looks at the outputs nor changes them. -/
def Quiet {α : Type} (x : AsmM α) : Prop :=
  ∀ sink rows a, x (withOutputs sink rows a) = mapEnding (withOutputs sink rows) (x a)

namespace Quiet

theorem outputs {α : Type} {x : AsmM α} (quiet : Quiet x) (a : Assembler) :
    (ending (x a)).sink = a.sink ∧ (ending (x a)).rows = a.rows := by
  have own : ending (x a) = withOutputs a.sink a.rows (ending (x a)) := by
    conv_lhs => rw [show x a = mapEnding (withOutputs a.sink a.rows) (x a) from quiet _ _ a]
    exact ending_mapEnding _ _
  have sinks := congrArg sink own
  have listings := congrArg rows own
  exact ⟨sinks, listings⟩

/-- A quiet step commutes with every change of the outputs that looks at nothing else. -/
theorem commutes {α : Type} {x : AsmM α} (quiet : Quiet x) (f : Assembler → Assembler)
    (a : Assembler) (sink : Sink) (rows : Option (Array Row))
    (change : ∀ b : Assembler, b.sink = a.sink → b.rows = a.rows → f b = withOutputs sink rows b) :
    x (f a) = mapEnding f (x a) := by
  obtain ⟨sinks, listings⟩ := quiet.outputs a
  have last := change (ending (x a)) sinks listings
  rw [change a rfl rfl, quiet sink rows a]
  cases done : x a with
  | ok v b =>
      rw [done] at last
      exact congrArg (EStateM.Result.ok v) last.symm
  | error e b =>
      rw [done] at last
      exact congrArg (EStateM.Result.error e) last.symm

theorem ofExcept {α : Type} (x : Except AsmError α) : Quiet (Assembler.ofExcept x) := by
  intro sink rows a
  cases x <;> rfl

theorem pure {α : Type} (v : α) : Quiet (Pure.pure v) := fun _ _ _ => rfl

theorem updateSymbols (f : SymbolTable → Except SymbolError SymbolTable) :
    Quiet (Assembler.updateSymbols f) := by
  intro sink rows a
  unfold Assembler.updateSymbols
  cases done : f a.symbols <;> simp [withOutputs, mapEnding, done]

theorem setOverride (s : SegReg) : Quiet (Assembler.setOverride s) := fun _ _ _ => rfl

theorem plan (i : Instruction) : Quiet (Assembler.plan i) := by
  intro sink rows a
  unfold Assembler.plan
  cases done : Encoding.plan i a.pending <;> simp [withOutputs, mapEnding, done]

theorem advanceData (bytes : List UInt8) : Quiet (Assembler.advanceData bytes) := by
  intro sink rows a
  unfold Assembler.advanceData
  split
  · exact updateSymbols _ sink rows a
  · rfl

/-- Looking at the symbols. -/
theorem symbols : Quiet fun a => .ok a.symbols a := fun _ _ _ => rfl

end Quiet

/-! ## Relations between steps -/

/-- A relation between the steps of two runs that holds between quiet steps that are the same,
between writing the same bytes and between adding rows whose texts are related by `T`, and that
goes over to sequences. -/
structure StepRelation (T : String → String → Prop)
    (P : (α : Type) → AsmM α → AsmM α → Prop) : Prop where
  same (text : String) : T text text
  quiet {α : Type} {x : AsmM α} (quiet : Quiet x) : P α x x
  bind {α β : Type} {x x' : AsmM α} {f f' : α → AsmM β} (first : P α x x')
    (second : ∀ v, P β (f v) (f' v)) : P β (x >>= f) (x' >>= f')
  emit (bytes : List UInt8) : P Unit (emit bytes) (emit bytes)
  record (bytes : List UInt8) {text text' : String} (texts : T text text') :
    P Unit (record bytes text) (record bytes text')

namespace StepRelation

variable {T : String → String → Prop} {P : (α : Type) → AsmM α → AsmM α → Prop}

/-- Of the state, a line looks at the symbols only. -/
theorem read {α : Type} (relation : StepRelation T P) (f f' : Assembler → AsmM α)
    (seen : ∀ a, f a = f { symbols := a.symbols }) (seen' : ∀ a, f' a = f' { symbols := a.symbols })
    (related : ∀ a, P α (f a) (f' a)) : P α (get >>= f) (get >>= f') := by
  have look : ∀ g : Assembler → AsmM α, (∀ a, g a = g { symbols := a.symbols }) →
      (get >>= g) = (fun a => .ok a.symbols a : AsmM SymbolTable) >>= fun t => g { symbols := t } := by
    intro g seen
    funext a
    exact congrFun (seen a) a
  rw [look f seen, look f' seen']
  exact relation.bind (relation.quiet .symbols) fun t => related { symbols := t }

theorem instruction (relation : StepRelation T P) (phase : Phase) (i : Instruction) :
    P Unit (Assembler.instruction phase i) (Assembler.instruction phase i) := by
  have plan := relation.quiet (.plan i)
  have moved := fun len => relation.quiet (.updateSymbols fun t => t.advance len)
  cases phase with
  | sizing =>
      exact relation.bind (relation.bind plan fun layout => relation.bind (moved layout.size)
        fun _ => relation.quiet (.pure layout.size)) fun _ => relation.quiet (.pure ())
  | encoding =>
      exact relation.bind (relation.bind plan fun layout => relation.bind (moved layout.size)
        fun _ => relation.bind (relation.emit layout.bytes) fun _ => relation.quiet (.pure layout))
          fun layout => relation.record layout.bytes (relation.same i.text)

theorem data (relation : StepRelation T P) (phase : Phase) (bytes : List UInt8)
    {text text' : String} (texts : T text text') :
    P Unit (Assembler.data phase bytes text) (Assembler.data phase bytes text') := by
  have counted := relation.quiet (.advanceData bytes)
  cases phase with
  | sizing => exact counted
  | encoding =>
      exact relation.bind (relation.bind counted fun _ => relation.emit bytes) fun _ =>
        relation.record bytes texts

theorem sourceInstruction (relation : StepRelation T P) (phase : Phase) (lead : Option Operation)
    (op : Operation) (operands : List Operand) :
    P Unit (Assembler.sourceInstruction phase lead op operands)
      (Assembler.sourceInstruction phase lead op operands) := by
  have main : P Unit (Assembler.sourceInstruction phase none op operands)
      (Assembler.sourceInstruction phase none op operands) := by
    have steps : Assembler.sourceInstruction phase none op operands =
        (get >>= fun a => ofExcept ((a.scope phase).instruction op operands) >>= fun i =>
          (Scope.segmentOf? operands).elim (Assembler.instruction phase i)
            fun s => setOverride s >>= fun _ => Assembler.instruction phase i) := by
      unfold Assembler.sourceInstruction
      cases Scope.segmentOf? operands <;> rfl
    rw [steps]
    refine relation.read _ _ (fun _ => rfl) (fun _ => rfl) fun _ =>
      relation.bind (relation.quiet (.ofExcept _)) fun i => ?_
    cases Scope.segmentOf? operands with
    | none => exact relation.instruction phase i
    | some s =>
        exact relation.bind (relation.quiet (.setOverride s)) fun _ => relation.instruction phase i
  cases lead with
  | none => exact main
  | some l => exact relation.bind (relation.instruction phase ⟨l, .none⟩) fun _ => main

theorem statement (relation : StepRelation T P) (phase : Phase) {text text' : List Char}
    (texts : T (String.ofList (Text.trim text)) (String.ofList (Text.trim text'))) (st : Statement) :
    P Unit (Assembler.statement phase text st) (Assembler.statement phase text' st) := by
  cases st with
  | empty => exact relation.quiet (.pure ())
  | ignored => exact relation.quiet (.pure ())
  | segmentStart name =>
      cases phase with
      | sizing => exact relation.quiet (.updateSymbols fun t => t.addSegment name)
      | encoding => exact relation.quiet (.updateSymbols fun t => t.enterSegment name)
  | segmentEnd name =>
      exact relation.read (fun a => ofExcept (a.checkEnds name)) _ (fun _ => rfl) (fun _ => rfl)
        fun _ => relation.quiet (.ofExcept _)
  | data width items =>
      exact relation.read
        (fun a => ofExcept ((a.scope phase).data width items) >>= fun bytes =>
          Assembler.data phase bytes (String.ofList (Text.trim text)))
        (fun a => ofExcept ((a.scope phase).data width items) >>= fun bytes =>
          Assembler.data phase bytes (String.ofList (Text.trim text'))) (fun _ => rfl) (fun _ => rfl)
        fun _ => relation.bind (relation.quiet (.ofExcept _)) fun bytes =>
          relation.data phase bytes texts
  | instruction lead op operands => exact relation.sourceInstruction phase lead op operands

theorem parsedLine (relation : StepRelation T P) (phase : Phase) (verify : Bool)
    {text text' : List Char}
    (texts : T (String.ofList (Text.trim text)) (String.ofList (Text.trim text'))) (line : Line) :
    P Unit (Assembler.parsedLine phase verify text line)
      (Assembler.parsedLine phase verify text' line) := by
  obtain ⟨label, st⟩ := line
  have main := relation.statement phase texts st
  cases label with
  | none => exact main
  | some name =>
      have label : P Unit (defineLabel phase verify name) (defineLabel phase verify name) := by
        cases phase with
        | sizing => exact relation.quiet (.updateSymbols fun t => t.addLabel name)
        | encoding =>
            exact relation.read (fun a => ofExcept (a.checkLabel verify name)) _ (fun _ => rfl)
              (fun _ => rfl) fun _ => relation.quiet (.ofExcept _)
      exact relation.bind label fun _ => main

/-- **Two runs over a line.**  The texts may differ as long as they are read alike. -/
theorem sourceLine (relation : StepRelation T P) (phase : Phase) (verify : Bool)
    {text text' : List Char} (read : Line.parse text = Line.parse text')
    (texts : T (String.ofList (Text.trim text)) (String.ofList (Text.trim text'))) :
    P Unit (Assembler.sourceLine phase verify text) (Assembler.sourceLine phase verify text') := by
  unfold Assembler.sourceLine
  rw [read]
  exact relation.bind (relation.quiet (.ofExcept _)) fun line =>
    relation.parsedLine phase verify texts line

end StepRelation

/-! ## The number of a line -/

/-- The result of a line, with its number on a fault. -/
def numbered (number : Nat) :
    EStateM.Result AsmError Assembler Unit → EStateM.Result LineError Assembler Unit
  | .ok _ a => .ok () a
  | .error e a => .error ⟨number, e⟩ a

theorem numberedLine_eq_numbered (phase : Phase) (verify : Bool) (number : Nat) (text : List Char)
    (a : Assembler) :
    numberedLine phase verify number text a =
      numbered number (sourceLine phase verify text { a with line := number }) := by
  unfold numberedLine
  cases sourceLine phase verify text { a with line := number } <;> rfl

theorem ending_numbered (number : Nat) (result : EStateM.Result AsmError Assembler Unit) :
    ending (numbered number result) = ending result := by
  cases result <;> rfl

theorem numbered_mapEnding (number : Nat) (f : Assembler → Assembler)
    (result : EStateM.Result AsmError Assembler Unit) :
    numbered number (mapEnding f result) = mapEnding f (numbered number result) := by
  cases result <;> rfl

theorem numbered_ok {number : Nat} {result : EStateM.Result AsmError Assembler Unit} {v : Unit}
    {b : Assembler} : numbered number result = .ok v b ↔ result = .ok v b := by
  cases result <;> simp [numbered]

end Assembler

/-! ## The end of a pass -/

/-- What the second pass makes of the run over its lines: the lengths are compared when all is
written. -/
def concluded (verify : Bool) (count : Nat) (lengths : List UInt16) :
    EStateM.Result LineError Assembler Unit → EStateM.Result LineError Assembler Unit
  | .error e a => .error e a
  | .ok _ a =>
      match (if verify then checkLengths a.symbols.segments lengths else .ok ()) with
      | .error e => .error ⟨count, e⟩ a
      | .ok _ => .ok () a

theorem passTwo_of_unknown {snapshot : Snapshot} {e : SnapshotError}
    (unknown : snapshot.rebuild = .error e) (source : String) (cfg : Config) (sink : Sink) :
    passTwo source snapshot cfg sink =
      .error ⟨0, .transfer (.badSnapshot e)⟩ { symbols := {}, sink } := by
  simp only [passTwo, unknown]

theorem passTwo_eq_concluded {source : String} {snapshot : Snapshot} {rebuilt : Rebuilt}
    (known : snapshot.rebuild = .ok rebuilt) (cfg : Config) (sink : Sink) :
    passTwo source snapshot cfg sink =
      concluded cfg.verify (Text.lines source.toList).length rebuilt.lengths
        (Assembler.sourceLines .encoding cfg.verify 1 (Text.lines source.toList)
          { symbols := rebuilt.table, sink, rows := if cfg.listing then some #[] else none }) := by
  simp only [passTwo, known]
  cases Assembler.sourceLines .encoding cfg.verify 1 (Text.lines source.toList)
    { symbols := rebuilt.table, sink, rows := if cfg.listing then some #[] else none } <;> rfl

variable {verify : Bool} {count : Nat} {lengths : List UInt16}

theorem ending_concluded (result : EStateM.Result LineError Assembler Unit) :
    ending (concluded verify count lengths result) = ending result := by
  cases result with
  | error e a => rfl
  | ok v a =>
      simp only [concluded]
      split <;> rfl

/-- The comparison looks at the symbols only. -/
theorem concluded_mapEnding (f : Assembler → Assembler) (unseen : ∀ a, (f a).symbols = a.symbols)
    (result : EStateM.Result LineError Assembler Unit) :
    concluded verify count lengths (mapEnding f result) =
      mapEnding f (concluded verify count lengths result) := by
  cases result with
  | error e a => rfl
  | ok v a =>
      simp only [concluded, mapEnding, unseen]
      split <;> rfl

end Asm86.Assembly
