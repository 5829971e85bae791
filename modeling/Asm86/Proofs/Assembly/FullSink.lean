/-
# Asm86.Proofs.Assembly.FullSink -- a pass into a sink that runs full

A sink with room for `r` bytes takes bytes one at a time (`Sink.emit_cons`) and fails at the one
that has no room.  `handedOver` is all that the second pass would give to a sink that takes
everything, up to its end or its first fault, and `lineEmissions` cuts this into the parts of
the lines.

If there is room for all of it, the limit is never noticed.  Otherwise the sink ends up with the
first `r` bytes, and the pass with a fault of the sink at the line whose part holds the byte
behind them (`full_sink_keeps_beginning`).  `Cuts` says this of a single step and goes over to
sequences: a step that is cut short ends the run, and what would have come later lies behind
the cut.
-/
import Asm86.Proofs.Assembly.TwoRuns

namespace Asm86.Output

set_option autoImplicit false

/-- Writing bytes at once is writing them one at a time, up to the first that has no room. -/
theorem Sink.emit_cons (s : Sink) (b : UInt8) (bytes : List UInt8) :
    s.emit (b :: bytes) = if (s.emit [b]).2 = none then (s.emit [b]).1.emit bytes else s.emit [b] := by
  cases limit : s.capacity with
  | none => simp [emit, room, limit]
  | some capacity =>
      by_cases full : s.bytes.size < capacity
      · have first : min 1 (capacity - s.bytes.size) = 1 := by omega
        have rest : min (bytes.length + 1) (capacity - s.bytes.size) =
            min bytes.length (capacity - (s.bytes.size + 1)) + 1 := by omega
        simp [emit, room, limit, first, rest]
      · have none : capacity - s.bytes.size = 0 := by omega
        simp [emit, room, limit, none]

end Asm86.Output

namespace Asm86.Assembly

open Asm86.Text
open Asm86.Symbols
open Asm86.Output

set_option autoImplicit false

namespace Assembler

/-- What the sink holds. -/
def written (a : Assembler) : List UInt8 := a.sink.bytes.toList

/-- The same state with room for `r` bytes in all. -/
def capped (r : Nat) (fault : SinkFault) (a : Assembler) : Assembler :=
  { a with sink := { a.sink with capacity := some r, whenFull := fault } }

/-! ## One step -/

section Steps

variable {ε α β : Type} {r : Nat} {fault : SinkFault} {stop : ε}

/-- How a step `x` into a sink that takes everything compares with a step `x'` from the same
state into a sink with room for `r` bytes, which fails with `stop` when it is full. -/
structure Cuts (r : Nat) (fault : SinkFault) (stop : ε) (x x' : EStateM ε Assembler α) : Prop where
  grows : ∀ a, a.sink.capacity = none →
    (ending (x a)).sink.capacity = none ∧ a.written <+: (ending (x a)).written
  fits : ∀ a, a.sink.capacity = none → (ending (x a)).written.length ≤ r →
    x' (a.capped r fault) = mapEnding (capped r fault) (x a)
  full : ∀ a, a.sink.capacity = none → a.written.length ≤ r → r < (ending (x a)).written.length →
    ∃ b, x' (a.capped r fault) = .error stop b ∧ b.written = (ending (x a)).written.take r

/-- What comes behind the cut does not change what stands before it. -/
theorem take_of_isPrefix {s t : List UInt8} (front : s <+: t) (long : r ≤ s.length) :
    s.take r = t.take r := by
  obtain ⟨rest, rfl⟩ := front
  exact (List.take_append_of_le_length long).symm

theorem Cuts.bind {x x' : EStateM ε Assembler α} {f f' : α → EStateM ε Assembler β}
    (first : Cuts r fault stop x x') (second : ∀ v, Cuts r fault stop (f v) (f' v)) :
    Cuts r fault stop (x >>= f) (x' >>= f') where
  grows a room := by
    have one := first.grows a room
    cases done : x a with
    | error e b =>
        rw [done] at one
        rwa [step_bind_of_error done]
    | ok v b =>
        rw [done] at one
        have two := (second v).grows b one.1
        rw [step_bind_of_ok done]
        exact ⟨two.1, one.2.trans two.2⟩
  fits a room fits := by
    have one := first.grows a room
    have same := first.fits a room
    cases done : x a with
    | error e b =>
        rw [step_bind_of_error done] at fits ⊢
        rw [done] at same
        exact step_bind_of_error (same fits)
    | ok v b =>
        rw [step_bind_of_ok done] at fits ⊢
        rw [done] at one same
        have two := ((second v).grows b one.1).2.length_le
        rw [step_bind_of_ok (same (Nat.le_trans two fits))]
        exact (second v).fits b one.1 fits
  full a room small tooLong := by
    have one := first.grows a room
    have same := first.fits a room
    have cut := first.full a room small
    cases done : x a with
    | error e b =>
        rw [step_bind_of_error done] at tooLong ⊢
        rw [done] at cut
        obtain ⟨c, failed, kept⟩ := cut tooLong
        exact ⟨c, step_bind_of_error failed, kept⟩
    | ok v b =>
        rw [step_bind_of_ok done] at tooLong ⊢
        rw [done] at one same cut
        by_cases early : b.written.length ≤ r
        · rw [step_bind_of_ok (same early)]
          exact (second v).full b one.1 early tooLong
        · obtain ⟨c, failed, kept⟩ := cut (Nat.lt_of_not_le early)
          have two := ((second v).grows b one.1).2
          exact ⟨c, step_bind_of_error failed,
            kept.trans (take_of_isPrefix two (Nat.le_of_not_le early))⟩

end Steps

section Lines

variable {r : Nat} {fault : SinkFault}

theorem Cuts.quiet {α : Type} {x : AsmM α} (quiet : Quiet x) : Cuts r fault (.sink fault) x x where
  grows a room := by
    rw [written, written, (quiet.outputs a).1]
    exact ⟨room, List.prefix_refl _⟩
  fits a _ _ := quiet.commutes (capped r fault) a (a.capped r fault).sink a.rows
    fun b sinks listings => by simp [withOutputs, capped, sinks, listings]
  full a _ small tooLong := by
    rw [written, (quiet.outputs a).1] at tooLong
    exact absurd small (Nat.not_le.2 tooLong)

/-- What has no room is left out, and nothing else. -/
theorem Cuts.emit (bytes : List UInt8) :
    Cuts r fault (.sink fault) (Assembler.emit bytes) (Assembler.emit bytes) where
  grows a room := by
    rw [emit_unlimited room]
    refine ⟨room, ?_⟩
    simp [ending, written]
  fits a room fits := by
    rw [emit_unlimited room] at fits ⊢
    have all : min bytes.length (r - a.sink.bytes.size) = bytes.length := by
      simp only [ending, written, Array.toList_appendList, List.length_append,
        Array.length_toList] at fits
      omega
    simp [Assembler.emit, Sink.emit, Sink.room, capped, mapEnding, all]
  full a room small tooLong := by
    rw [emit_unlimited room] at tooLong ⊢
    simp only [ending, written, Array.toList_appendList, List.length_append,
      Array.length_toList] at tooLong small
    have part : min bytes.length (r - a.sink.bytes.size) = r - a.sink.bytes.size := by omega
    have short : r - a.sink.bytes.size < bytes.length := by omega
    refine ⟨{ a.capped r fault with
        sink := { (a.capped r fault).sink with
          bytes := a.sink.bytes ++ bytes.take (r - a.sink.bytes.size) } }, ?_, ?_⟩
    · simp [Assembler.emit, Sink.emit, Sink.room, capped, part, short]
    · simp [ending, written, List.take_append, List.take_of_length_le, small]

theorem Cuts.record (bytes : List UInt8) (text : String) :
    Cuts r fault (.sink fault) (Assembler.record bytes text) (Assembler.record bytes text) where
  grows _ room := ⟨room, List.prefix_refl _⟩
  fits _ _ _ := rfl
  full _ _ small tooLong := absurd small (Nat.not_le.2 tooLong)

theorem stepRelation_cuts :
    StepRelation Eq fun _ x x' => Cuts r fault (AsmError.sink fault) x x' where
  same _ := rfl
  quiet := .quiet
  bind := .bind
  emit := .emit
  record bytes text _ same := same ▸ .record bytes text

theorem Cuts.numberedLine (r : Nat) (fault : SinkFault) (verify : Bool) (number : Nat)
    (text : List Char) :
    Cuts r fault (⟨number, .sink fault⟩ : LineError)
      (Assembler.numberedLine .encoding verify number text)
      (Assembler.numberedLine .encoding verify number text) := by
  have line : Cuts r fault (.sink fault) (sourceLine .encoding verify text)
      (sourceLine .encoding verify text) :=
    stepRelation_cuts.sourceLine .encoding verify rfl rfl
  refine ⟨fun a room => ?_, fun a room fits => ?_, fun a room small tooLong => ?_⟩
  · rw [numberedLine_eq_numbered, ending_numbered]
    exact line.grows { a with line := number } room
  · rw [numberedLine_eq_numbered, ending_numbered] at fits
    rw [numberedLine_eq_numbered, numberedLine_eq_numbered, ← numbered_mapEnding]
    exact congrArg (numbered number) (line.fits { a with line := number } room fits)
  · rw [numberedLine_eq_numbered, ending_numbered] at tooLong
    obtain ⟨b, failed, kept⟩ := line.full { a with line := number } room small tooLong
    rw [numberedLine_eq_numbered, numberedLine_eq_numbered, ending_numbered]
    exact ⟨b, congrArg (numbered number) failed, kept⟩

/-! ## All lines -/

/-- What each of the lines hands to the sink, up to and including the one that fails. -/
def emissions (verify : Bool) (number : Nat) :
    List (List Char) → Assembler → List (List UInt8)
  | [], _ => []
  | text :: rest, a =>
      match numberedLine .encoding verify number text a with
      | .ok _ b => b.written.drop a.written.length :: emissions verify (number + 1) rest b
      | .error _ b => [b.written.drop a.written.length]

variable {verify : Bool} {number : Nat} {text : List Char} {texts : List (List Char)}
  {a b : Assembler}

/-- The part of a line that succeeds, and the parts behind it. -/
theorem emissions_ok {v : Unit} (room : a.sink.capacity = none)
    (done : numberedLine .encoding verify number text a = .ok v b) (rest : List (List Char)) :
    b.sink.capacity = none ∧ ∃ part, b.written = a.written ++ part ∧
      emissions verify number (text :: rest) a = part :: emissions verify (number + 1) rest b := by
  -- The limit plays no part here, any one will do.
  obtain ⟨unlimited, part, whole⟩ :=
    (Cuts.numberedLine 0 .tapeFull verify number text).grows a room
  simp only [done, ending_ok] at unlimited whole
  refine ⟨unlimited, part, whole.symm, ?_⟩
  simp only [emissions, done, ← whole, List.drop_left]

/-- The part of a line that fails is the last one. -/
theorem emissions_error {e : LineError} (room : a.sink.capacity = none)
    (failed : numberedLine .encoding verify number text a = .error e b) (rest : List (List Char)) :
    ∃ part, b.written = a.written ++ part ∧ emissions verify number (text :: rest) a = [part] := by
  obtain ⟨-, part, whole⟩ := (Cuts.numberedLine 0 .tapeFull verify number text).grows a room
  simp only [failed, ending_error] at whole
  refine ⟨part, whole.symm, ?_⟩
  simp only [emissions, failed, ← whole, List.drop_left]

/-- The parts of the lines are what a run hands over. -/
theorem flatten_emissions (room : a.sink.capacity = none) :
    (ending (sourceLines .encoding verify number texts a)).written =
      a.written ++ (emissions verify number texts a).flatten := by
  induction texts generalizing number a with
  | nil => exact (List.append_nil _).symm
  | cons text rest ih =>
      rw [sourceLines]
      cases done : numberedLine .encoding verify number text a with
      | error e b =>
          obtain ⟨part, whole, parts⟩ := emissions_error room done rest
          rw [step_bind_of_error done, parts, ending_error, whole, List.flatten_singleton]
      | ok v b =>
          obtain ⟨unlimited, part, whole, parts⟩ := emissions_ok room done rest
          rw [step_bind_of_ok done, parts, ih unlimited, whole, List.flatten_cons, List.append_assoc]

/-- A run that fits into the room does not notice the limit. -/
theorem sourceLines_fits (fault : SinkFault) (room : a.sink.capacity = none)
    (fits : (ending (sourceLines .encoding verify number texts a)).written.length ≤ r) :
    sourceLines .encoding verify number texts (a.capped r fault) =
      mapEnding (capped r fault) (sourceLines .encoding verify number texts a) := by
  induction texts generalizing number a with
  | nil => rfl
  | cons text rest ih =>
      have same := (Cuts.numberedLine r fault verify number text).fits a room
      rw [sourceLines] at fits ⊢
      cases done : numberedLine .encoding verify number text a with
      | error e b =>
          rw [step_bind_of_error done] at fits ⊢
          rw [done] at same
          exact step_bind_of_error (same fits)
      | ok v b =>
          obtain ⟨unlimited, -⟩ := emissions_ok room done rest
          rw [step_bind_of_ok done] at fits ⊢
          rw [done, ending_ok] at same
          have front : b.written.length ≤ r := by
            rw [flatten_emissions unlimited, List.length_append] at fits
            omega
          rw [step_bind_of_ok (same front)]
          exact ih unlimited fits

/-- A run that does not fit ends at the line that hands over the first byte without room. -/
theorem sourceLines_full (fault : SinkFault) (room : a.sink.capacity = none)
    (small : a.written.length ≤ r)
    (tooLong : r < (ending (sourceLines .encoding verify number texts a)).written.length) :
    ∃ n b, sourceLines .encoding verify number texts (a.capped r fault) =
        .error ⟨number + n, .sink fault⟩ b ∧
      b.written = (ending (sourceLines .encoding verify number texts a)).written.take r ∧
      a.written.length + ((emissions verify number texts a).take n).flatten.length ≤ r ∧
      r < a.written.length + ((emissions verify number texts a).take (n + 1)).flatten.length := by
  induction texts generalizing number a with
  | nil => exact absurd small (Nat.not_le.2 tooLong)
  | cons text rest ih =>
      have line := Cuts.numberedLine r fault verify number text
      rw [sourceLines] at tooLong ⊢
      cases done : numberedLine .encoding verify number text a with
      | error e b =>
          obtain ⟨part, whole, parts⟩ := emissions_error room done rest
          have cut := line.full a room small
          rw [done, ending_error] at cut
          rw [step_bind_of_error done, ending_error] at tooLong ⊢
          obtain ⟨c, failed, kept⟩ := cut tooLong
          rw [parts]
          refine ⟨0, c, step_bind_of_error failed, kept, by simpa using small, ?_⟩
          simpa [whole] using tooLong
      | ok v b =>
          obtain ⟨unlimited, part, whole, parts⟩ := emissions_ok room done rest
          have length : b.written.length = a.written.length + part.length := by
            rw [whole, List.length_append]
          rw [step_bind_of_ok done] at tooLong ⊢
          rw [parts]
          by_cases early : b.written.length ≤ r
          · have same := line.fits a room
            rw [done] at same
            obtain ⟨n, c, failed, kept, before, behind⟩ := ih unlimited early tooLong
            refine ⟨n + 1, c, ?_, kept, ?_, ?_⟩
            · rw [step_bind_of_ok (same early), ← Nat.add_assoc, Nat.add_right_comm]
              exact failed
            · rw [List.take_succ_cons, List.flatten_cons, List.length_append]
              omega
            · rw [List.take_succ_cons, List.flatten_cons, List.length_append]
              omega
          · have cut := line.full a room small
            rw [done, ending_ok] at cut
            obtain ⟨c, failed, kept⟩ := cut (Nat.lt_of_not_le early)
            refine ⟨0, c, step_bind_of_error failed, ?_, by simpa using small, ?_⟩
            · rw [kept, flatten_emissions unlimited]
              exact take_of_isPrefix (List.prefix_append _ _) (Nat.le_of_not_le early)
            · rw [List.take_succ_cons, List.take_zero, List.flatten_singleton]
              omega

end Lines

end Assembler

/-! ## The pass as a whole -/

/-- All that the second pass hands to a sink that takes everything, also when it fails. -/
def handedOver (source : String) (snapshot : Snapshot) (cfg : Config) : List UInt8 :=
  (ending (passTwo source snapshot cfg .unlimited)).written

/-- What each line of a source hands over in the second pass. -/
def lineEmissions (source : String) (snapshot : Snapshot) (cfg : Config) : List (List UInt8) :=
  match snapshot.rebuild with
  | .ok rebuilt =>
      Assembler.emissions cfg.verify 1 (lines source.toList)
        { symbols := rebuilt.table, rows := if cfg.listing then some #[] else none }
  | .error _ => []

/-- **A full sink holds exactly a beginning.**  With room for all that it hands over, a pass does what
it does without a limit.  With less room it fails with the fault of the sink, at the line that
hands over the first byte without room, and everything before that byte has been written. -/
theorem full_sink_keeps_beginning (source : String) (snapshot : Snapshot) (cfg : Config) (r : Nat)
    (fault : SinkFault) :
    (lineEmissions source snapshot cfg).flatten = handedOver source snapshot cfg ∧
      ((handedOver source snapshot cfg).length ≤ r →
        passTwo source snapshot cfg { capacity := some r, whenFull := fault } =
            mapEnding (Assembler.capped r fault) (passTwo source snapshot cfg .unlimited) ∧
          (ending (passTwo source snapshot cfg { capacity := some r, whenFull := fault })).written =
            handedOver source snapshot cfg) ∧
      (r < (handedOver source snapshot cfg).length →
        ∃ n a, passTwo source snapshot cfg { capacity := some r, whenFull := fault } =
            .error ⟨n + 1, .sink fault⟩ a ∧
          a.written = (handedOver source snapshot cfg).take r ∧
          ((lineEmissions source snapshot cfg).take n).flatten.length ≤ r ∧
          r < ((lineEmissions source snapshot cfg).take (n + 1)).flatten.length) := by
  unfold handedOver lineEmissions
  cases known : snapshot.rebuild with
  | error e =>
      rw [passTwo_of_unknown known, passTwo_of_unknown known]
      refine ⟨rfl, fun _ => ⟨rfl, rfl⟩, fun tooLong => ?_⟩
      exact absurd tooLong (Nat.not_lt_zero r)
  | ok rebuilt =>
      rw [passTwo_eq_concluded known, passTwo_eq_concluded known, ending_concluded, ending_concluded]
      have start : ({ symbols := rebuilt.table, sink := { capacity := some r, whenFull := fault },
                      rows := if cfg.listing then some #[] else none } : Assembler) =
          Assembler.capped r fault
            { symbols := rebuilt.table, sink := .unlimited,
              rows := if cfg.listing then some #[] else none } := rfl
      refine ⟨?_, fun fits => ?_, fun tooLong => ?_⟩
      · rw [Assembler.flatten_emissions (by rfl)]
        rfl
      · have same := Assembler.sourceLines_fits fault rfl fits
        rw [start, same, concluded_mapEnding (Assembler.capped r fault) fun _ => rfl,
          ending_mapEnding]
        exact ⟨rfl, rfl⟩
      · obtain ⟨n, b, failed, kept, before, behind⟩ :=
          Assembler.sourceLines_full fault rfl (Nat.zero_le r) tooLong
        rw [start, failed]
        refine ⟨n, b, ?_, kept, ?_, ?_⟩
        · rw [Nat.add_comm n]
          rfl
        · exact Nat.le_trans (Nat.le_add_left _ _) before
        · exact Nat.lt_of_lt_of_eq behind (Nat.zero_add _)

/-- A pass that fails at its last line, with the lead of that line written. -/
def brokenJump : String := "C SEGMENT\n DB 1, 2, 3\n LOCK JZ 30000"

/-- Without room for the lead the fault of the jump is not reached; with it the limit is not
noticed. -/
theorem full_sink_keeps_beginning_of_failed :
    handedOver brokenJump [⟨.segment, "", "C", 0, 0⟩] {} = [1, 2, 3, 0xF0] ∧
      (∃ a, passTwo brokenJump [⟨.segment, "", "C", 0, 0⟩] {} (.tape 3) =
          .error ⟨3, .sink .tapeFull⟩ a ∧ a.written = [1, 2, 3]) ∧
      passTwo brokenJump [⟨.segment, "", "C", 0, 0⟩] {} (.tape 4) =
        mapEnding (Assembler.capped 4 .tapeFull)
          (passTwo brokenJump [⟨.segment, "", "C", 0, 0⟩] {} .unlimited) := by
  have handed : handedOver brokenJump [⟨.segment, "", "C", 0, 0⟩] {} = [1, 2, 3, 0xF0] := by
    decide +kernel
  have parts : lineEmissions brokenJump [⟨.segment, "", "C", 0, 0⟩] {} = [[], [1, 2, 3], [0xF0]] := by
    decide +kernel
  obtain ⟨-, -, tooLong⟩ :=
    full_sink_keeps_beginning brokenJump [⟨.segment, "", "C", 0, 0⟩] {} 3 .tapeFull
  obtain ⟨-, fits, -⟩ :=
    full_sink_keeps_beginning brokenJump [⟨.segment, "", "C", 0, 0⟩] {} 4 .tapeFull
  rw [handed] at fits tooLong
  rw [parts] at tooLong
  obtain ⟨n, a, failed, kept, before, behind⟩ := tooLong (by decide)
  have third : n = 2 := by
    rcases n with _ | _ | _ | n
    · exact absurd behind (by decide)
    · exact absurd behind (by decide)
    · rfl
    · exact absurd before (by simp)
  subst third
  exact ⟨handed, ⟨a, failed, kept⟩, (fits (by decide)).1⟩

end Asm86.Assembly
