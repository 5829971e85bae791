/-
# Asm86.Proofs.Assembly.Agreement -- the two passes agree

A source that the sizing pass gets through hands its symbols over without loss, and the
encoding pass then replays the sizing pass line by line.  What is left to go wrong is a name
that is unknown, a value that does not fit, or a branch that is too far
(`second_pass_only_unresolved`).  Whether the counters are compared on the way makes no
difference (`assemble_verify`).
-/
import Asm86.Proofs.Assembly.Replay
import Asm86.Proofs.Symbols.Canonical

namespace Asm86.Assembly

open Asm86.Checked
open Asm86.Text
open Asm86.Symbols
open Asm86.Output

set_option autoImplicit false

/-! ## The first pass -/

theorem passOne_ok {source : String} {cfg : Config} {snapshot : Snapshot} :
    passOne source cfg = .ok snapshot ↔
      ∃ a, Assembler.sourceLines .sizing false 1 (lines source.toList) (.ofConfig cfg) = .ok () a ∧
        a.symbols.freeze = .ok snapshot := by
  unfold passOne
  cases Assembler.sourceLines .sizing false 1 (lines source.toList) (.ofConfig cfg) with
  | error e a => simp
  | ok _ a => simp [mapError_eq_ok]

/-- A first pass that came to its end: the assembler it left and the symbols of that. -/
structure FirstPass (source : String) (cfg : Config) (last : Assembler) (snapshot : Snapshot) :
    Prop where
  done : Assembler.sourceLines .sizing false 1 (lines source.toList) (.ofConfig cfg) = .ok () last
  frozen : last.symbols.freeze = .ok snapshot

variable {source : String} {cfg : Config} {last : Assembler} {snapshot : Snapshot}

theorem FirstPass.sized (first : FirstPass source cfg last snapshot) :
    last.symbols.Sized cfg.origin.toNat :=
  (Assembler.sourceLines_grows first.done).sized (SymbolTable.sized_ofOrigin cfg.origin)

/-! ## The second pass -/

/-- The assembler that the second pass starts from. -/
def encodingStart (t : SymbolTable) (cfg : Config) : Assembler :=
  { symbols := .ofParts (t.segments.map Segment.reset) t.labels
    rows := if cfg.listing then some #[] else none }

theorem replays_encodingStart (t : SymbolTable) (cfg : Config) :
    Assembler.Replays cfg.origin.toNat t (.ofConfig cfg) (encodingStart t cfg) where
  table := SymbolTable.replays_start t cfg.origin
  sized := SymbolTable.sized_ofOrigin cfg.origin
  pending := rfl
  unlimited := rfl
  written := rfl

theorem checkLengths_self (segments : List Segment) :
    checkLengths segments (segments.map Segment.counter) = .ok () := by
  induction segments with
  | nil => rfl
  | cons s rest ih => simp [checkLengths, ih]

/-- The lines of the second pass, one after the other. -/
def encoded (source : String) (t : SymbolTable) (cfg : Config) :
    EStateM.Result LineError Assembler Unit :=
  Assembler.sourceLines .encoding false 1 (lines source.toList) (encodingStart t cfg)

theorem FirstPass.encoded_yields (first : FirstPass source cfg last snapshot) :
    Yields (fun e => e.error.Unresolved)
      (fun _ b => Assembler.Replays cfg.origin.toNat last.symbols last b)
      (encoded source last.symbols cfg) :=
  ((replays_encodingStart last.symbols cfg).sourceLines first.sized first.done (.refl _) false).2

/-- Nothing is lost on the way to the second pass, and the checks that it makes at its end
hold. -/
theorem FirstPass.passTwo_eq (first : FirstPass source cfg last snapshot) :
    passTwo source snapshot cfg .unlimited = encoded source last.symbols cfg := by
  have start := replays_encodingStart last.symbols cfg
  have same := (start.sourceLines first.sized first.done (.refl _) cfg.verify).1
  have yields := first.encoded_yields
  have rebuilt := SymbolTable.rebuild_freeze first.sized.owned first.frozen
  cases result : encoded source last.symbols cfg with
  | error e b =>
      rw [← encoded, result, encodingStart] at same
      simp only [passTwo, rebuilt, same]
  | ok _ b =>
      rw [← encoded, result, encodingStart] at same
      rw [result] at yields
      have lengths : checkLengths b.symbols.segments (last.symbols.segments.map Segment.counter) =
          .ok () := by
        rw [yields.table.segments_final, checkLengths_self]
      simp only [passTwo, rebuilt, same]
      cases cfg.verify
      · rfl
      · simp [lengths]

/-! ## Both passes -/

theorem FirstPass.assemble_eq (first : FirstPass source cfg last snapshot)
    (named : snapshot.WellNamed) (few : snapshot.length < 4294967296) :
    assemble source cfg =
      match encoded source last.symbols cfg with
      | .ok _ b => .ok ⟨⟨cfg.origin, b.sink.bytes⟩, snapshot, b.listing⟩
      | .error e _ => .error e := by
  have read := Snapshot.ofBytes_block named (SymbolTable.freeze_ordered first.frozen) few
  unfold assemble
  rw [passOne_ok.2 ⟨last, first.done, first.frozen⟩]
  simp only [bind, Except.bind, Snapshot.toBytes_eq named, Except.mapError, read, first.passTwo_eq]
  cases encoded source last.symbols cfg <;> rfl

/-- A block that was written and accepted holds what was handed over. -/
theorem FirstPass.received_eq {bytes : List UInt8} {received : Snapshot}
    (first : FirstPass source cfg last snapshot) (written : snapshot.toBytes = .ok bytes)
    (accepted : Snapshot.ofBytes bytes = .ok received) :
    snapshot.WellNamed ∧ snapshot.length < 4294967296 ∧ received = snapshot := by
  obtain ⟨fits, same⟩ :=
    Snapshot.received_eq (SymbolTable.freeze_ordered first.frozen) written accepted
  exact ⟨fits.named, fits.few, same⟩

/-- The symbols that come with an image are those of its first pass, and they went through a
block. -/
theorem assembled_symbols {out : Assembled} (done : assemble source cfg = .ok out) :
    ∃ last, FirstPass source cfg last out.symbols ∧ out.symbols.WellNamed ∧
      out.symbols.length < 4294967296 := by
  obtain ⟨snapshot, sized, rest⟩ := bind_eq_ok.1 done
  obtain ⟨bytes, written, rest⟩ := bind_eq_ok.1 rest
  obtain ⟨received, accepted, rest⟩ := bind_eq_ok.1 rest
  obtain ⟨last, lines, frozen⟩ := passOne_ok.1 sized
  have first : FirstPass source cfg last snapshot := ⟨lines, frozen⟩
  obtain ⟨named, few, -⟩ :=
    first.received_eq (mapError_eq_ok.1 written) (mapError_eq_ok.1 accepted)
  cases result : passTwo source received cfg .unlimited with
  | error e b =>
      rw [result] at rest
      cases rest
  | ok _ b =>
      rw [result] at rest
      cases rest
      exact ⟨last, first, named, few⟩

/-- Whoever gets an image has been through both passes. -/
theorem assemble_ok {out : Assembled} (done : assemble source cfg = .ok out) :
    ∃ last b, FirstPass source cfg last out.symbols ∧
      encoded source last.symbols cfg = .ok () b ∧
      out = ⟨⟨cfg.origin, b.sink.bytes⟩, out.symbols, b.listing⟩ := by
  obtain ⟨last, first, named, few⟩ := assembled_symbols done
  have whole := first.assemble_eq named few
  rw [done] at whole
  cases result : encoded source last.symbols cfg with
  | error e b =>
      rw [result] at whole
      cases whole
  | ok _ b =>
      rw [result] at whole
      exact ⟨last, b, first, result, Except.ok.inj whole⟩

/-- Comparing the counters of the passes changes nothing. -/
theorem assemble_verify (source : String) (cfg : Config) (verify : Bool) :
    assemble source { cfg with verify } = assemble source cfg := by
  refine bind_congr_ok fun snapshot sized => ?_
  refine bind_congr_ok fun bytes written => ?_
  refine bind_congr_ok fun received accepted => ?_
  obtain ⟨last, lines, frozen⟩ := passOne_ok.1 sized
  have checked : FirstPass source { cfg with verify } last snapshot := ⟨lines, frozen⟩
  have first : FirstPass source cfg last snapshot := ⟨lines, frozen⟩
  obtain ⟨-, -, rfl⟩ := first.received_eq (mapError_eq_ok.1 written) (mapError_eq_ok.1 accepted)
  rw [checked.passTwo_eq, first.passTwo_eq]
  rfl

/-- **The second pass cannot disagree with the first.**  Once a source has been sized and its
names fit the block, only a name without a label, a value that does not fit or a branch that
is too far can stop it. -/
theorem second_pass_only_unresolved (sized : passOne source cfg = .ok snapshot)
    (named : snapshot.WellNamed) (few : snapshot.length < 4294967296) :
    (∃ block, snapshot.toBytes = .ok block ∧ Snapshot.ofBytes block = .ok snapshot) ∧
      (∀ e a, passTwo source snapshot cfg .unlimited = .error e a → e.error.Unresolved) ∧
      (∀ e, assemble source cfg = .error e → e.error.Unresolved) ∧
      ∀ verify, assemble source { cfg with verify } = assemble source cfg := by
  obtain ⟨last, done, frozen⟩ := passOne_ok.1 sized
  have first : FirstPass source cfg last snapshot := ⟨done, frozen⟩
  have yields := first.encoded_yields
  refine ⟨⟨_, Snapshot.toBytes_eq named,
    Snapshot.ofBytes_block named (SymbolTable.freeze_ordered frozen) few⟩, ?_, ?_,
    assemble_verify source cfg⟩
  · intro e a failed
    rw [first.passTwo_eq] at failed
    rw [failed] at yields
    exact yields
  · intro e failed
    rw [first.assemble_eq named few] at failed
    cases result : encoded source last.symbols cfg with
    | ok _ b =>
        rw [result] at failed
        cases failed
    | error e' b =>
        rw [result] at failed yields
        cases failed
        exact yields

/-- A jump forward over a word whose name has no label. -/
theorem second_pass_undefined_label :
    passOne "C SEGMENT\n JMP N\n DW M\nN: HLT" { origin := 256 } =
        .ok [⟨.segment, "", "C", 6, 256⟩, ⟨.label, "N", "C", 5, 261⟩] ∧
      (∀ e, assemble "C SEGMENT\n JMP N\n DW M\nN: HLT" { origin := 256 } = .error e →
        e.error.Unresolved) ∧
      assemble "C SEGMENT\n JMP N\n DW M\nN: HLT" { origin := 256 } =
        .error ⟨3, .undefinedLabel "M"⟩ := by
  have sized : passOne "C SEGMENT\n JMP N\n DW M\nN: HLT" { origin := 256 } =
      .ok [⟨.segment, "", "C", 6, 256⟩, ⟨.label, "N", "C", 5, 261⟩] := by decide +kernel
  have rest := second_pass_only_unresolved sized (by decide +kernel) (by decide)
  exact ⟨sized, rest.2.2.1, by decide +kernel⟩

end Asm86.Assembly
