/-
# Asm86.Proofs.Assembly.Session -- an assembler in the hands of anyone

The steps of an assembler can be taken in any order, not only as a pass takes them.  A
`session` is such a sequence of commands; a command that fails ends nothing, and what it did
before it failed stays done.  Only an image address beyond 32 bits ends the session.

`Outcome` says once what a command can do: edit the table, hand it over, be refused, or have no
room for its bytes.  So the symbol table is consistent throughout, and the one step that can
leave the range of addresses is moving the counters (`session_consistent`).
-/
import Asm86.Proofs.Assembly.Steps
import Asm86.Proofs.Symbols.Consistent

namespace Asm86.Assembly

open Asm86.Checked
open Asm86.Machine
open Asm86.Encoding
open Asm86.Symbols
open Asm86.Output

set_option autoImplicit false

/-- What can be asked of an assembler.  The sink belongs to the one who asks, who may give
another one at any time. -/
inductive Command where
  | edit (e : Edit)
  | size (i : Instruction)
  | encode (i : Instruction)
  | emitData (bytes : List UInt8)
  | advanceData (bytes : List UInt8)
  | setOverride (s : SegReg)
  | handOver
  | useSink (sink : Sink)

namespace Command

open Assembler

def run : Command → AsmM Unit
  | .edit e => updateSymbols fun t => t.edit e
  | .size i => do let _ ← Assembler.size i
  | .encode i => do let _ ← encodeInstruction i
  | .emitData bytes => Assembler.emitData bytes
  | .advanceData bytes => Assembler.advanceData bytes
  | .setOverride s => Assembler.setOverride s
  | .handOver => do let _ ← Assembler.handOver
  | .useSink sink => fun a => .ok () { a with sink }

/-- The assembler after a command, unless an address left its range. -/
def next (a : Assembler) (c : Command) : Option Assembler :=
  match c.run a with
  | .ok _ b => some b
  | .error (.symbol .addressOverflow) _ => none
  | .error _ b => some b

/-- By how many bytes a command would move the counters, if it does. -/
def moves (a : Assembler) : Command → Option Nat
  | .edit (.advance len) => some len
  | .encode i => (Encoding.plan i a.pending).toOption.map Layout.size
  | .emitData bytes | .advanceData bytes => some bytes.length
  | _ => none

end Command

/-- The assembler after all the commands, whether they succeeded or failed. -/
def session (commands : List Command) (a : Assembler) : Option Assembler :=
  commands.foldlM Command.next a

namespace Command

open Assembler

/-! ## What a command can do -/

inductive Outcome (a : Assembler) : EStateM.Result AsmError Assembler Unit → Prop where
  | edited {b : Assembler} (table : a.symbols.Edited b.symbols) : Outcome a (.ok () b)
  | handedOver {b : Assembler} {rebuilt : Rebuilt} (transferred : transfer a.symbols = .ok rebuilt)
      (table : b.symbols = rebuilt.table) : Outcome a (.ok () b)
  /-- Nothing was done, except that a pending override may be used up. -/
  | refused {e : AsmError} {b : Assembler} (unchanged : b = a ∨ b = { a with pending := none }) :
      Outcome a (.error e b)
  | unwritten {fault : SinkFault} {b : Assembler} (table : a.symbols.Edited b.symbols) :
      Outcome a (.error (.sink fault) b)

/-- Writing fails for want of room at most, and touches nothing but the sink. -/
theorem outcome_emit {a b : Assembler} (bytes : List UInt8) (table : a.symbols.Edited b.symbols) :
    Outcome a (emit bytes b) := by
  unfold emit
  split
  · exact .edited table
  · exact .unwritten table

theorem outcome_updateSymbols (a : Assembler) (e : Edit) :
    Outcome a (updateSymbols (fun t => t.edit e) a) := by
  unfold updateSymbols
  split
  · rename_i t done
    exact .edited (.once e done)
  · exact .refused (.inl rfl)

/-- An instruction that cannot be planned or does not fit is refused; the override is used up
all the same. -/
theorem encode_eq (i : Instruction) (a : Assembler) :
    (Command.encode i).run a =
      match Encoding.plan i a.pending with
      | .error e => .error (.encode e) { a with pending := none }
      | .ok layout =>
          match a.symbols.advance layout.size with
          | .error e => .error (.symbol e) { a with pending := none }
          | .ok t => emit layout.bytes { a with symbols := t, pending := none } := by
  cases planned : Encoding.plan i a.pending with
  | error e => simp [run, encodeInstruction, Assembler.plan, planned, bind, EStateM.bind]
  | ok layout =>
      cases moved : a.symbols.advance layout.size with
      | error e =>
          simp [run, encodeInstruction, Assembler.plan, planned, Assembler.advance, updateSymbols, moved,
            bind, EStateM.bind]
      | ok t =>
          simp only [run, encodeInstruction, Assembler.plan, planned, Assembler.advance, updateSymbols,
            moved, bind, EStateM.bind]
          cases emit layout.bytes { a with symbols := t, pending := none } <;> rfl

theorem outcome_advanceData (a : Assembler) (bytes : List UInt8) :
    Outcome a (Assembler.advanceData bytes a) := by
  unfold Assembler.advanceData
  split
  · exact outcome_updateSymbols a (.advance bytes.length)
  · exact .refused (.inl rfl)

theorem outcome_emitData (a : Assembler) (bytes : List UInt8) :
    Outcome a (Assembler.emitData bytes a) := by
  have counted := outcome_advanceData a bytes
  show Outcome a (EStateM.bind _ _ a)
  unfold EStateM.bind
  cases result : Assembler.advanceData bytes a with
  | ok _ b =>
      obtain ⟨t, moved, rfl⟩ := advanceData_ok.1 result
      exact outcome_emit bytes (.once (.advance bytes.length) moved)
  | error e b =>
      rw [result] at counted
      exact counted

theorem outcome_encode (a : Assembler) (i : Instruction) : Outcome a ((Command.encode i).run a) := by
  rw [encode_eq]
  split
  · exact .refused (.inr rfl)
  · rename_i layout planned
    split
    · exact .refused (.inr rfl)
    · rename_i t moved
      exact outcome_emit layout.bytes (.once (.advance layout.size) moved)

theorem handOver_eq (a : Assembler) :
    Command.handOver.run a =
      match transfer a.symbols with
      | .ok rebuilt => .ok () { a with symbols := rebuilt.table, pending := none, line := 0 }
      | .error e => .error e a := by
  cases result : transfer a.symbols <;>
    simp [run, Assembler.handOver, result, bind, EStateM.bind, pure, EStateM.pure]

theorem size_eq (i : Instruction) (a : Assembler) :
    (Command.size i).run a =
      match Encoding.plan i a.pending with
      | .ok _ => .ok () { a with pending := none }
      | .error e => .error (.encode e) { a with pending := none } := by
  cases planned : Encoding.plan i a.pending <;>
    simp [run, Assembler.size, Assembler.plan, planned, bind, EStateM.bind, pure, EStateM.pure]

/-- Every command has one of these outcomes. -/
theorem outcome (a : Assembler) (c : Command) : Outcome a (c.run a) := by
  cases c with
  | edit e => exact outcome_updateSymbols a e
  | size i =>
      rw [size_eq]
      split
      · exact .edited (.refl _)
      · exact .refused (.inr rfl)
  | encode i => exact outcome_encode a i
  | emitData bytes => exact outcome_emitData a bytes
  | advanceData bytes => exact outcome_advanceData a bytes
  | setOverride s => exact .edited (.refl _)
  | handOver =>
      rw [handOver_eq]
      split
      · rename_i rebuilt transferred
        exact .handedOver transferred rfl
      · exact .refused (.inl rfl)
  | useSink sink => exact .edited (.refl _)

/-! ## The table after a command -/

theorem transfer_ok {t : SymbolTable} {rebuilt : Rebuilt} (owned : t.Owned)
    (transferred : transfer t = .ok rebuilt) :
    rebuilt = ⟨.ofParts (t.segments.map Segment.reset) t.labels, t.segments.map Segment.counter⟩ := by
  obtain ⟨s, frozen, sent⟩ := bind_eq_ok.1 transferred
  obtain ⟨bytes, written, sent⟩ := bind_eq_ok.1 sent
  obtain ⟨received, accepted, rebuilds⟩ := bind_eq_ok.1 sent
  rw [mapError_eq_ok] at frozen written accepted rebuilds
  obtain ⟨-, same⟩ :=
    Snapshot.received_eq (SymbolTable.freeze_ordered frozen) written accepted
  rw [same, SymbolTable.rebuild_freeze owned frozen] at rebuilds
  exact (Except.ok.inj rebuilds).symm

theorem next_consistent {a b : Assembler} {c : Command} (consistent : a.symbols.Consistent)
    (done : c.next a = some b) : b.symbols.Consistent := by
  have effect := outcome a c
  unfold next at done
  cases result : c.run a with
  | ok _ b' =>
      rw [result] at effect done
      cases done
      cases effect with
      | edited table => exact table.consistent consistent
      | handedOver transferred table =>
          rw [table, transfer_ok consistent.owned transferred]
          exact consistent.rebuilt
  | error e b' =>
      have same : b' = b := by
        rw [result] at done
        split at done <;> simp_all
      rw [result, same] at effect
      cases effect with
      | refused unchanged => rcases unchanged with rfl | rfl <;> exact consistent
      | unwritten table => exact table.consistent consistent

theorem session_preserves {commands : List Command} {a b : Assembler}
    (consistent : a.symbols.Consistent) (reached : session commands a = some b) :
    b.symbols.Consistent := by
  induction commands generalizing a with
  | nil =>
      cases reached
      exact consistent
  | cons c rest ih =>
      obtain ⟨middle, first, others⟩ := Option.bind_eq_some_iff.1 reached
      exact ih (next_consistent consistent first) others

/-! ## Leaving the range of addresses -/

theorem transfer_fits {t : SymbolTable} (consistent : t.Consistent) :
    transfer t ≠ .error (.symbol .addressOverflow) := by
  obtain ⟨s, frozen⟩ := consistent.freeze_ok
  unfold transfer
  rw [frozen]
  cases written : s.toBytes with
  | error e => simp [Except.mapError, bind, Except.bind, written]
  | ok bytes =>
      cases read : Snapshot.ofBytes bytes with
      | error e => simp [Except.mapError, bind, Except.bind, written, read]
      | ok received =>
          cases rebuilt : received.rebuild <;>
            simp [Except.mapError, bind, Except.bind, written, read, rebuilt]

theorem updateSymbols_overflow {f : SymbolTable → Except SymbolError SymbolTable} {a : Assembler} :
    (∃ b, updateSymbols f a = .error (.symbol .addressOverflow) b) ↔
      f a.symbols = .error .addressOverflow := by
  unfold updateSymbols
  cases f a.symbols <;> simp

theorem emit_fits (bytes : List UInt8) (a : Assembler) :
    ∀ b, emit bytes a ≠ .error (.symbol .addressOverflow) b := by
  intro b
  unfold emit
  split <;> simp

/-- Data that is too long for any segment never gets to the image. -/
theorem advanceData_overflow (a : Assembler) (bytes : List UInt8) :
    (∃ b, Assembler.advanceData bytes a = .error (.symbol .addressOverflow) b) ↔
      a.symbols.advance bytes.length = .error .addressOverflow := by
  unfold Assembler.advanceData
  split
  · exact updateSymbols_overflow
  · rename_i long
    rw [SymbolTable.advance_overflow]
    simp only [EStateM.Result.error.injEq, AsmError.symbol.injEq, reduceCtorEq, false_and,
      exists_false, false_iff, not_exists, not_and]
    intro s _ room
    omega

theorem emitData_overflow (a : Assembler) (bytes : List UInt8) :
    (∃ b, Assembler.emitData bytes a = .error (.symbol .addressOverflow) b) ↔
      a.symbols.advance bytes.length = .error .addressOverflow := by
  rw [← advanceData_overflow]
  show (∃ b, EStateM.bind _ _ a = _) ↔ _
  unfold EStateM.bind
  cases Assembler.advanceData bytes a with
  | ok _ b => simpa using emit_fits bytes b
  | error e b => rfl

theorem encode_overflow (a : Assembler) (i : Instruction) :
    (∃ b, (Command.encode i).run a = .error (.symbol .addressOverflow) b) ↔
      ∃ layout, Encoding.plan i a.pending = .ok layout ∧
        a.symbols.advance layout.size = .error .addressOverflow := by
  rw [encode_eq]
  cases Encoding.plan i a.pending with
  | error e => simp
  | ok layout =>
      cases moved : a.symbols.advance layout.size with
      | error e => simp [moved]
      | ok t =>
          have fits := emit_fits layout.bytes { a with symbols := t, pending := none }
          simpa [moved] using fits

/-- A command leaves the range of addresses exactly when its moving does. -/
theorem run_overflow {a : Assembler} (consistent : a.symbols.Consistent) (c : Command) :
    (∃ b, c.run a = .error (.symbol .addressOverflow) b) ↔
      ∃ len, c.moves a = some len ∧ a.symbols.advance len = .error .addressOverflow := by
  cases c with
  | edit e =>
      show (∃ b, updateSymbols (fun t => t.edit e) a = _) ↔ _
      rw [updateSymbols_overflow, consistent.edit_overflow]
      cases e <;> simp [moves]
  | size i =>
      rw [size_eq]
      split <;> simp [moves]
  | encode i =>
      rw [encode_overflow]
      cases planned : Encoding.plan i a.pending <;> simp [moves, planned, Except.toOption]
  | emitData bytes =>
      simp only [moves, Option.some.injEq, exists_eq_left']
      exact emitData_overflow a bytes
  | advanceData bytes =>
      simp only [moves, Option.some.injEq, exists_eq_left']
      exact advanceData_overflow a bytes
  | setOverride s => simp [run, Assembler.setOverride, moves]
  | handOver =>
      rw [handOver_eq]
      have fits := transfer_fits consistent
      split <;> simp_all [moves]
  | useSink sink => simp [run, moves]

end Command

/-- **The table stays consistent in every session.**  After any commands, whether they succeeded
or failed, no address of the table leaves its range; the next command can only do so by moving
the counters, and does exactly when the segment has room for the bytes and the image has not.
A command that is refused has changed nothing but a pending override. -/
theorem session_consistent (cfg : Config) (commands : List Command) {a : Assembler}
    (reached : session commands (.ofConfig cfg) = some a) :
    a.symbols.Consistent ∧
      (∀ name, a.symbols.enterSegment name ≠ .error .addressOverflow) ∧
      (a.symbols.here? = .ok (a.symbols.currentSegment?.map fun _ => a.symbols.imageCounter)) ∧
      (∃ snapshot, a.symbols.freeze = .ok snapshot) ∧
      (∀ l ∈ a.symbols.labels, ∃ address, a.symbols.addressOf? l = .ok (some address)) ∧
      (∀ c : Command, (∃ b, c.run a = .error (.symbol .addressOverflow) b) ↔
        ∃ len s, c.moves a = some len ∧ a.symbols.currentSegment? = some s ∧
          s.counter.toNat + len < 65536 ∧ 4294967296 ≤ a.symbols.imageCounter.toNat + len) ∧
      (∀ (c : Command) (e : SymbolError) (b : Assembler), c.run a = .error (.symbol e) b →
        b = a ∨ b = { a with pending := none }) ∧
      ∀ (c : Command) (e : EncodeError) (b : Assembler), c.run a = .error (.encode e) b →
        b = a ∨ b = { a with pending := none } := by
  have consistent := Command.session_preserves (SymbolTable.consistent_ofOrigin cfg.origin) reached
  refine ⟨consistent, consistent.enterSegment_fits, consistent.here?_eq, consistent.freeze_ok,
    ?_, ?_, ?_, ?_⟩
  · intro l member
    obtain ⟨s, -, address, -, found, -⟩ := consistent.addressOf?_ok member
    exact ⟨address, found⟩
  · intro c
    rw [Command.run_overflow consistent c]
    simp only [SymbolTable.advance_overflow, exists_and_left]
  · intro c e b failed
    have effect := Command.outcome a c
    rw [failed] at effect
    cases effect with
    | refused unchanged => exact unchanged
  · intro c e b failed
    have effect := Command.outcome a c
    rw [failed] at effect
    cases effect with
    | refused unchanged => exact unchanged

/-- A session near the last address: a name defined twice, a table handed over, a segment entered
again, and a sink without room. -/
def crowded : List Command :=
  [.edit (.addSegment "C"), .edit (.advance 10), .edit (.addLabel "N"), .edit (.addSegment "C"),
    .handOver, .edit (.addLabel "M"), .edit (.enterSegment "C"), .setOverride .es,
    .encode ⟨.hlt, .none⟩, .useSink (.tape 1), .emitData [1, 2]]

theorem session_crowded :
    ∃ a, session crowded (.ofConfig { origin := 4294967280 }) = some a ∧
      a.symbols = ⟨[⟨"C", 4294967280, 4⟩], [⟨"N", "C", 10⟩], some 0, 4294967284⟩ ∧
      a.symbols.Consistent ∧
      ∃ b, (Command.edit (.advance 12)).run a = .error (.symbol .addressOverflow) b := by
  have reached : session crowded (.ofConfig { origin := 4294967280 }) =
      some { symbols := ⟨[⟨"C", 4294967280, 4⟩], [⟨"N", "C", 10⟩], some 0, 4294967284⟩
             sink := { bytes := #[1], capacity := some 1 } } := by decide +kernel
  obtain ⟨consistent, -, -, -, -, overflow, -⟩ := session_consistent _ _ reached
  refine ⟨_, reached, rfl, consistent, (overflow _).2 ⟨12, _, rfl, rfl, ?_, ?_⟩⟩ <;> decide

end Asm86.Assembly
