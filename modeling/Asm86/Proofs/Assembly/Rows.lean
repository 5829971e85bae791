/-
# Asm86.Proofs.Assembly.Rows -- the listing changes nothing but itself

No step looks at the rows of the listing.  So two runs over lines that are read alike go the same
way, whatever rows they keep (`Relists`), and two sources whose lines are read alike assemble to
the same image and the same symbols, or fail alike (`assemble_relisted`).  What is known of the
two listings is a relation that stays when both get a row and these two rows agree in all but
their texts.
-/
import Asm86.Proofs.Assembly.TwoRuns
import Asm86.Proofs.Checked

namespace Asm86.Output

set_option autoImplicit false

/-- The row without its text. -/
def Row.withoutText (r : Row) : Row := { r with text := "" }

end Asm86.Output

namespace Asm86.Assembly

open Asm86.Checked
open Asm86.Text
open Asm86.Source
open Asm86.Symbols
open Asm86.Output

set_option autoImplicit false

/-- The lines of two texts are read alike, one by one. -/
def ReadAlike (texts texts' : List (List Char)) : Prop :=
  List.Forall₂ (fun text text' => Line.parse text = Line.parse text') texts texts'

namespace Assembler

/-- The state with other rows. -/
def relisted (rows : Option (Array Row)) (a : Assembler) : Assembler := { a with rows }

/-- A relation between the rows of two runs stays when both add a row of the same place. -/
def KeptByRows (L : Option (Array Row) → Option (Array Row) → Prop) : Prop :=
  ∀ rows rows' r r', L rows rows' → r.withoutText = r'.withoutText →
    L (rows.map fun rows => rows.push r) (rows'.map fun rows => rows.push r')

section Steps

variable {ε α β : Type} {L : Option (Array Row) → Option (Array Row) → Prop}

/-- From states that differ in related rows, both steps go the same way to such states. -/
def Relists (L : Option (Array Row) → Option (Array Row) → Prop) (x x' : EStateM ε Assembler α) :
    Prop :=
  ∀ a rows, L a.rows rows →
    ∃ rows', x' (a.relisted rows) = mapEnding (relisted rows') (x a) ∧ L (ending (x a)).rows rows'

theorem Relists.bind {x x' : EStateM ε Assembler α} {f f' : α → EStateM ε Assembler β}
    (first : Relists L x x') (second : ∀ v, Relists L (f v) (f' v)) :
    Relists L (x >>= f) (x' >>= f') := by
  intro a rows related
  obtain ⟨rows', same, related'⟩ := first a rows related
  cases done : x a with
  | error e b =>
      rw [done] at same related'
      rw [step_bind_of_error done, step_bind_of_error same]
      exact ⟨rows', rfl, related'⟩
  | ok v b =>
      rw [done] at same related'
      rw [step_bind_of_ok done, step_bind_of_ok same]
      exact second v b rows' related'

theorem rowOf_relisted (a : Assembler) (rows : Option (Array Row)) (bytes : List UInt8)
    (text text' : String) :
    (a.rowOf bytes text).withoutText = ((a.relisted rows).rowOf bytes text').withoutText := by
  simp only [rowOf, relisted]
  cases a.symbols.currentSegment? <;> rfl

theorem stepRelation_relists (kept : KeptByRows L) :
    StepRelation (fun _ _ => True) fun _ x x' => Relists L x x' where
  same _ := trivial
  bind := .bind
  quiet {_ x} quiet := by
    intro a rows related
    refine ⟨rows, quiet.commutes (relisted rows) a a.sink rows ?_, ?_⟩
    · intro b sinks _
      simp [withOutputs, relisted, sinks]
    · rwa [(quiet.outputs a).2]
  emit bytes := by
    intro a rows related
    refine ⟨rows, ?_, ?_⟩
    · simp only [emit, relisted]
      split <;> rfl
    · simp only [emit]
      split <;> exact related
  record bytes {text text'} _ := by
    intro a rows related
    refine ⟨_, rfl, ?_⟩
    exact kept _ _ _ _ related (rowOf_relisted a rows bytes text text')

/-! ## Lines -/

theorem Relists.numberedLine (kept : KeptByRows L) (phase : Phase) (verify : Bool) (number : Nat)
    {text text' : List Char} (read : Line.parse text = Line.parse text') :
    Relists L (numberedLine phase verify number text) (numberedLine phase verify number text') := by
  have line : Relists L (sourceLine phase verify text) (sourceLine phase verify text') :=
    (stepRelation_relists kept).sourceLine phase verify read trivial
  intro a rows related
  obtain ⟨rows', same, related'⟩ := line { a with line := number } rows related
  rw [numberedLine_eq_numbered, numberedLine_eq_numbered, ending_numbered]
  refine ⟨rows', ?_, related'⟩
  rw [← numbered_mapEnding]
  exact congrArg (numbered number) same

theorem Relists.sourceLines (kept : KeptByRows L) (phase : Phase) (verify : Bool) (number : Nat)
    {texts texts' : List (List Char)} (alike : ReadAlike texts texts') :
    Relists L (sourceLines phase verify number texts) (sourceLines phase verify number texts') := by
  induction alike generalizing number with
  | nil => exact fun a rows related => ⟨rows, rfl, related⟩
  | cons read _ ih => exact (Relists.numberedLine kept phase verify number read).bind fun _ => ih _

end Steps

end Assembler

/-! ## Passes -/

variable {source source' : String}

/-- The first pass keeps no rows, so it sees no difference at all. -/
theorem passOne_alike (alike : ReadAlike (lines source.toList) (lines source'.toList))
    {cfg cfg' : Config} (origin : cfg'.origin = cfg.origin) :
    passOne source' cfg' = passOne source cfg := by
  have kept : Assembler.KeptByRows fun rows rows' => rows = none ∧ rows' = none := by
    rintro rows rows' r r' ⟨rfl, rfl⟩ _
    exact ⟨rfl, rfl⟩
  obtain ⟨rows, same, last, rfl⟩ :=
    Assembler.Relists.sourceLines kept .sizing false 1 alike (.ofConfig cfg) none ⟨rfl, rfl⟩
  have run : Assembler.sourceLines .sizing false 1 (lines source'.toList) (.ofConfig cfg') =
      Assembler.sourceLines .sizing false 1 (lines source.toList) (.ofConfig cfg) := by
    have start : Assembler.ofConfig cfg' = (Assembler.ofConfig cfg).relisted none := by
      simp [Assembler.ofConfig, Assembler.relisted, origin]
    rw [start, same]
    cases done : Assembler.sourceLines .sizing false 1 (lines source.toList) (.ofConfig cfg) with
    | ok v b =>
        rw [done] at last
        simp only [mapEnding, Assembler.relisted, ← last, ending_ok]
    | error e b =>
        rw [done] at last
        simp only [mapEnding, Assembler.relisted, ← last, ending_error]
  unfold passOne
  rw [run]

/-- The second pass goes the same way and ends with related rows. -/
theorem passTwo_relisted {L : Option (Array Row) → Option (Array Row) → Prop}
    (kept : Assembler.KeptByRows L) (alike : ReadAlike (lines source.toList) (lines source'.toList))
    {cfg cfg' : Config} (verify : cfg'.verify = cfg.verify)
    (start : L (if cfg.listing then some #[] else none) (if cfg'.listing then some #[] else none))
    {snapshot : Snapshot} {rebuilt : Rebuilt} (known : snapshot.rebuild = .ok rebuilt)
    (sink : Sink) :
    ∃ rows', passTwo source' snapshot cfg' sink =
        mapEnding (Assembler.relisted rows') (passTwo source snapshot cfg sink) ∧
      L (ending (passTwo source snapshot cfg sink)).rows rows' := by
  obtain ⟨rows', same, related⟩ :=
    Assembler.Relists.sourceLines kept .encoding cfg.verify 1 alike
      { symbols := rebuilt.table, sink, rows := if cfg.listing then some #[] else none } _ start
  refine ⟨rows', ?_, ?_⟩
  · rw [passTwo_eq_concluded known, passTwo_eq_concluded known, verify, ← alike.length_eq,
      ← concluded_mapEnding (Assembler.relisted rows') fun _ => rfl, ← same]
    rfl
  · rwa [passTwo_eq_concluded known, ending_concluded]

/-- **Sources that are read alike are assembled alike.**  What is looked at of the two outcomes is
the same if it shows no more of the listings than how they are related. -/
theorem assemble_relisted {L : Option (Array Row) → Option (Array Row) → Prop}
    (kept : Assembler.KeptByRows L) (alike : ReadAlike (lines source.toList) (lines source'.toList))
    (cfg cfg' : Config) (origin : cfg'.origin = cfg.origin) (verify : cfg'.verify = cfg.verify)
    (start : L (if cfg.listing then some #[] else none) (if cfg'.listing then some #[] else none))
    {β : Type} (shown shown' : Assembled → β)
    (blind : ∀ image symbols rows rows', L rows rows' →
      shown ⟨image, symbols, (rows.getD #[]).toList⟩ =
        shown' ⟨image, symbols, (rows'.getD #[]).toList⟩) :
    (assemble source' cfg').map shown' = (assemble source cfg).map shown := by
  unfold assemble
  rw [passOne_alike alike origin]
  refine map_bind_congr fun symbols => map_bind_congr fun block => map_bind_congr fun received => ?_
  cases known : received.rebuild with
  | error e =>
      rw [passTwo_of_unknown known, passTwo_of_unknown known]
      rfl
  | ok rebuilt =>
      obtain ⟨rows', same, related⟩ := passTwo_relisted kept alike verify start known .unlimited
      rw [same]
      cases done : passTwo source received cfg .unlimited with
      | error e b => rfl
      | ok v b =>
          rw [done] at related
          simp only [mapEnding, origin, Except.map, Assembler.listing]
          exact congrArg Except.ok (blind _ _ _ _ related).symm

end Asm86.Assembly
