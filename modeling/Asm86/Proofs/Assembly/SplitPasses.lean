/-
# Asm86.Proofs.Assembly.SplitPasses -- the passes as two programs

The two passes may run apart: the first writes its symbols to a stream, the second reads them
back and writes to a sink of its own.  `splitPasses` is that run.

No step of a pass looks at what its sink holds (`Blind`), so a pass into a sink that already
holds something adds to it what it would have written anyway (`passTwo_onto`).  Together with
the way of the symbols through the stream this makes both runs one and the same
(`splitPasses_eq_assemble`), whatever origin the second one is told.
-/
import Asm86.Proofs.Assembly.Agreement
import Asm86.Proofs.Assembly.TwoRuns
import Asm86.Proofs.Symbols.Stream

namespace Asm86.Assembly

open Asm86.Checked
open Asm86.Text
open Asm86.Machine
open Asm86.Source
open Asm86.Symbols
open Asm86.Output

set_option autoImplicit false

/-! ## Steps that do not look at the sink -/

namespace Assembler

/-- The same state with another sink, which has taken what the own one has. -/
def onto (s : Sink) (a : Assembler) : Assembler :=
  { a with sink := { s with bytes := s.bytes ++ a.sink.bytes } }

def ontoResult {ε α : Type} (s : Sink) :
    EStateM.Result ε Assembler α → EStateM.Result ε Assembler α
  | .ok v a => .ok v (a.onto s)
  | .error e a => .error e (a.onto s)

theorem ontoResult_eq {ε α : Type} (s : Sink) (result : EStateM.Result ε Assembler α) :
    ontoResult s result = mapEnding (onto s) result := by
  cases result <;> rfl

/-- A step does the same to a state with another sink. -/
structure Blind {ε α : Type} (s : Sink) (x : EStateM ε Assembler α) : Prop where
  same : ∀ a : Assembler, a.sink.capacity = none → x (a.onto s) = ontoResult s (x a)
  unlimited : ∀ (a b : Assembler) (v : α), a.sink.capacity = none → x a = .ok v b →
    b.sink.capacity = none

namespace Blind

variable {ε α β : Type} {s : Sink}

theorem bind {x : EStateM ε Assembler α} {f : α → EStateM ε Assembler β} (first : Blind s x)
    (second : ∀ v, Blind s (f v)) : Blind s (x >>= f) where
  same a room := by
    show EStateM.bind x f (a.onto s) = ontoResult s (EStateM.bind x f a)
    unfold EStateM.bind
    rw [first.same a room]
    cases done : x a with
    | error e b => rfl
    | ok v b => exact (second v).same b (first.unlimited a b v room done)
  unlimited a c v room done := by
    obtain ⟨u, b, one, two⟩ := step_bind_ok.1 done
    exact (second u).unlimited b c v (first.unlimited a b u room one) two

theorem pure (v : α) : Blind s (Pure.pure v : EStateM ε Assembler α) where
  same _ _ := rfl
  unlimited a b v room done := by
    cases done
    exact room

theorem quiet {x : AsmM α} (quiet : Quiet x) : Blind s x where
  same a _ := by
    have commutes := quiet.commutes (onto s) a (a.onto s).sink a.rows fun b sinks listings => by
      simp [withOutputs, onto, sinks, listings]
    rw [commutes, ontoResult_eq]
  unlimited a b v room done := by
    have sinks := (quiet.outputs a).1
    rw [done, ending_ok] at sinks
    rw [sinks]
    exact room

theorem emit (room : s.capacity = none) (bytes : List UInt8) : Blind s (Assembler.emit bytes) where
  same a room' := by
    have bytes : s.bytes ++ a.sink.bytes ++ bytes = s.bytes ++ (a.sink.bytes ++ bytes) := by
      apply Array.ext'
      simp
    rw [emit_unlimited room', emit_unlimited (by exact room)]
    simp [onto, ontoResult, bytes]
  unlimited a b v room' done := by
    rw [emit_unlimited room'] at done
    cases done
    exact room'

theorem record (bytes : List UInt8) (text : String) : Blind s (Assembler.record bytes text) where
  same _ _ := rfl
  unlimited a b v room done := by
    cases done
    exact room

/-- Here the two runs of a `StepRelation` are one. -/
theorem stepRelation (room : s.capacity = none) :
    StepRelation Eq fun _ x x' => x' = x ∧ Blind s x where
  same _ := rfl
  quiet quiet := ⟨rfl, .quiet quiet⟩
  bind first second :=
    ⟨congr (congrArg _ first.1) (funext fun v => (second v).1),
      first.2.bind fun v => (second v).2⟩
  emit bytes := ⟨rfl, emit room bytes⟩
  record bytes text _ texts := ⟨congrArg _ texts.symm, record bytes text⟩

theorem numberedLine (room : s.capacity = none) (phase : Phase) (verify : Bool) (number : Nat)
    (text : List Char) : Blind s (Assembler.numberedLine phase verify number text) := by
  have line : Blind s (Assembler.sourceLine phase verify text) :=
    ((stepRelation room).sourceLine phase verify rfl rfl).2
  constructor
  · intro a room'
    rw [numberedLine_eq_numbered, numberedLine_eq_numbered, ontoResult_eq, ← numbered_mapEnding,
      ← ontoResult_eq]
    exact congrArg (numbered number) (line.same { a with line := number } room')
  · intro a b v room' done
    rw [numberedLine_eq_numbered] at done
    exact line.unlimited { a with line := number } b v room' (numbered_ok.1 done)

theorem sourceLines (room : s.capacity = none) (phase : Phase) (verify : Bool) (number : Nat)
    (texts : List (List Char)) : Blind s (Assembler.sourceLines phase verify number texts) := by
  induction texts generalizing number with
  | nil => exact pure ()
  | cons text rest ih =>
      exact (numberedLine room phase verify number text).bind fun _ => ih (number + 1)

end Blind

end Assembler

/-- **A pass adds to its sink what it would have written to an empty one.** -/
theorem passTwo_onto (source : String) (snapshot : Snapshot) (cfg : Config) {sink : Sink}
    (room : sink.capacity = none) :
    passTwo source snapshot cfg sink =
      Assembler.ontoResult sink (passTwo source snapshot cfg .unlimited) := by
  cases known : snapshot.rebuild with
  | error e =>
      rw [passTwo_of_unknown known, passTwo_of_unknown known]
      simp [Assembler.ontoResult, Assembler.onto, Sink.unlimited]
  | ok rebuilt =>
      have start : ({ symbols := rebuilt.table, sink,
                      rows := if cfg.listing then some #[] else none } : Assembler) =
          Assembler.onto sink { symbols := rebuilt.table, sink := .unlimited,
                                rows := if cfg.listing then some #[] else none } := by
        simp [Assembler.onto, Sink.unlimited]
      have run := (Assembler.Blind.sourceLines room .encoding cfg.verify 1
        (lines source.toList)).same
        { symbols := rebuilt.table, sink := .unlimited,
          rows := if cfg.listing then some #[] else none } rfl
      rw [passTwo_eq_concluded known, passTwo_eq_concluded known, start, run,
        Assembler.ontoResult_eq, Assembler.ontoResult_eq,
        concluded_mapEnding (Assembler.onto sink) fun _ => rfl]

/-! ## Two programs -/

/-- The passes run apart.  The symbols go through a stream in which `rest` follows them, and the
second pass has a configuration and a sink of its own. -/
def splitPasses (source : String) (first second : Config) (rest : List UInt8) (sink : Sink) :
    Except LineError Assembler := do
  let symbols ← passOne source first
  let stream ← (symbols.write .unlimited).mapError fun e => ⟨0, .transfer e⟩
  let (received, _) ←
    (Snapshot.read (stream.bytes.toList ++ rest)).mapError fun e => ⟨0, .transfer e⟩
  match passTwo source received second sink with
  | .ok _ a => return a
  | .error e _ => throw e

theorem write_unlimited {s : Snapshot} {bytes : List UInt8} (written : s.toBytes = .ok bytes) :
    s.write .unlimited = .ok { bytes := bytes.toArray } := by
  simp [Snapshot.write, written, bind, Except.bind, Sink.emit, Sink.room, Sink.unlimited, pure,
    Except.pure]

variable {source : String} {cfg : Config} {last : Assembler} {snapshot : Snapshot}

theorem FirstPass.passTwo_onto (first : FirstPass source cfg last snapshot) {second : Config}
    (listing : second.listing = cfg.listing) {sink : Sink} (room : sink.capacity = none) :
    passTwo source snapshot second sink =
      Assembler.ontoResult sink (encoded source last.symbols cfg) := by
  have checked : FirstPass source { cfg with verify := second.verify } last snapshot :=
    ⟨first.done, first.frozen⟩
  -- The second pass does not look at the origin.
  have flags : passTwo source snapshot second .unlimited =
      passTwo source snapshot { cfg with verify := second.verify } .unlimited := by
    simp only [passTwo, listing]
  rw [Assembly.passTwo_onto source snapshot second room, flags, checked.passTwo_eq]
  rfl

/-- **Passes run apart do what they do together.**  Whatever origin the second one is told and
whatever its sink holds already, the same bytes follow, the same rows are listed, and a fault
is the same fault at the same line. -/
theorem splitPasses_eq_assemble (source : String) (first second : Config) (rest : List UInt8)
    (sink : Sink) (listing : second.listing = first.listing) (room : sink.capacity = none)
    (few : ∀ s, passOne source first = .ok s → s.length < 4294967296) :
    (splitPasses source first second rest sink).map (fun a => (a.sink.bytes, a.listing)) =
      (assemble source first).map fun out => (sink.bytes ++ out.image.bytes, out.listing) := by
  cases sized : passOne source first with
  | error e => simp only [splitPasses, assemble, sized, bind, Except.bind, Except.map]
  | ok snapshot =>
      cases written : snapshot.toBytes with
      | error e =>
          simp only [splitPasses, assemble, sized, Snapshot.write, written, bind, Except.bind,
            Except.mapError, Except.map]
      | ok bytes =>
          obtain ⟨last, done, frozen⟩ := passOne_ok.1 sized
          have pass : FirstPass source first last snapshot := ⟨done, frozen⟩
          have named := Snapshot.wellNamed_of_toBytes written
          have fits : snapshot.Transferable :=
            ⟨named, SymbolTable.freeze_ordered frozen, few snapshot sized⟩
          cases (Snapshot.toBytes_eq named).symm.trans written
          rw [pass.assemble_eq named fits.few]
          simp only [splitPasses, sized, write_unlimited written, bind, Except.bind, Except.mapError,
            fits.read_block, pass.passTwo_onto listing room]
          cases encoded source last.symbols first <;> rfl

/-- A second pass at another address, into a sink that is not empty. -/
theorem splitPasses_eq_assemble_two_segments :
    (splitPasses "C SEGMENT\nL: MOV AX, [V]\n JMP L\nD SEGMENT\nV: DW V, L+2"
        { origin := 256, listing := true } { origin := 70000, listing := true } [7, 9]
        { bytes := #[1, 2] }).map (fun a => (a.sink.bytes, a.listing)) =
      .ok (#[1, 2, 0xA1, 0, 0, 0xE9, 0xFA, 0xFF, 0, 0, 2, 0],
        [⟨2, "C", 0, [0xA1, 0, 0], "MOV AX, WORD PTR [0000h]"⟩,
          ⟨3, "C", 3, [0xE9, 0xFA, 0xFF], "JMP FFFAh"⟩,
          ⟨5, "D", 0, [0, 0, 2, 0], "V: DW V, L+2"⟩]) := by
  have done : assemble "C SEGMENT\nL: MOV AX, [V]\n JMP L\nD SEGMENT\nV: DW V, L+2"
      { origin := 256, listing := true } =
      .ok ⟨⟨256, #[0xA1, 0, 0, 0xE9, 0xFA, 0xFF, 0, 0, 2, 0]⟩,
        [⟨.segment, "", "C", 6, 256⟩, ⟨.segment, "", "D", 4, 262⟩,
          ⟨.label, "L", "C", 0, 256⟩, ⟨.label, "V", "D", 0, 262⟩],
        [⟨2, "C", 0, [0xA1, 0, 0], "MOV AX, WORD PTR [0000h]"⟩,
          ⟨3, "C", 3, [0xE9, 0xFA, 0xFF], "JMP FFFAh"⟩,
          ⟨5, "D", 0, [0, 0, 2, 0], "V: DW V, L+2"⟩]⟩ := by
    decide +kernel
  obtain ⟨last, first, -, few⟩ := assembled_symbols done
  have same := splitPasses_eq_assemble "C SEGMENT\nL: MOV AX, [V]\n JMP L\nD SEGMENT\nV: DW V, L+2"
    { origin := 256, listing := true } { origin := 70000, listing := true } [7, 9]
    { bytes := #[1, 2] } rfl rfl fun s sized => by
      cases sized.symm.trans (passOne_ok.2 ⟨last, first.done, first.frozen⟩)
      exact few
  rw [same, done]
  rfl

end Asm86.Assembly
