/-
# Asm86.Proofs.Symbols.Replay -- the table of the second pass follows that of the first

The second pass starts with all segments and labels of the first and with every counter at
zero.  `Replays final t u` says that `u` is such a table after the steps that took the
first pass to `t`, where `final` is the table the first pass ends with: the segments seen
so far are those of `t`, and those still to come are as they were defined.

Each step of the first pass has a counterpart that keeps this: moving is moving
(`Replays.advance`), defining a segment is entering it (`Replays.enterSegment`), and
defining a label is finding it where it was put (`Replays.findLabel`).
-/
import Asm86.Proofs.Symbols.Handoff

namespace Asm86.Symbols.SymbolTable

open Asm86.Checked

set_option autoImplicit false

/-- `u` stands in the second pass where `t` stood in the first. -/
structure Replays (final t u : SymbolTable) : Prop where
  segments : u.segments = t.segments ++ (final.segments.map Segment.reset).drop t.segments.length
  labels : u.labels = final.labels
  current : u.current = t.current
  image : t.current.isSome → u.imageCounter = t.imageCounter

theorem replays_start (final : SymbolTable) (origin : UInt32) :
    Replays final (ofOrigin origin) (ofParts (final.segments.map Segment.reset) final.labels) where
  segments := rfl
  labels := rfl
  current := rfl
  image := fun impossible => nomatch impossible

variable {final t u : SymbolTable} {origin : Nat}

theorem Replays.segments_final (replays : Replays final final u) : u.segments = final.segments := by
  rw [replays.segments, List.drop_eq_nil_of_le (by simp), List.append_nil]

theorem Replays.currentSegment?_eq (replays : Replays final t u) (sized : Sized origin t) :
    u.currentSegment? = t.currentSegment? := by
  unfold currentSegment?
  rw [replays.current]
  cases current : t.current with
  | none => rfl
  | some i =>
      have length := sized.last
      rw [current] at length
      have inside : i < t.segments.length := by rw [length]; exact Nat.lt_succ_self i
      simp only [Option.bind_some, replays.segments, List.getElem?_append_left inside]

/-! ## The steps -/

theorem Replays.advance {t' : SymbolTable} {len : Nat} (replays : Replays final t u)
    (moved : t.advance len = .ok t') : ∃ u', u.advance len = .ok u' ∧ Replays final t' u' := by
  obtain ⟨i, s, address, current, found, fits, stop, rfl⟩ := advance_ok.1 moved
  have inside : i < t.segments.length := (List.getElem?_eq_some_iff.1 found).1
  have image : u.imageCounter = t.imageCounter := replays.image (by rw [current]; rfl)
  refine ⟨_, advance_ok.2 ⟨i, s, address, replays.current.trans current, ?_, fits, ?_, rfl⟩, ?_⟩
  · rw [replays.segments, List.getElem?_append_left inside, found]
  · rw [image, stop]
  · refine ⟨?_, replays.labels, replays.current, fun _ => rfl⟩
    simp only [replays.segments, List.set_append_left _ _ inside, List.length_set]

/-- The segment that the first pass defines next is the first of those still to come. -/
theorem Replays.next_segment {t' : SymbolTable} {name : String} (replays : Replays final t u)
    (added : t.addSegment name = .ok t') (later : Extends t' final) :
    u.segments = t.segments ++ ⟨name, t.imageCounter, 0⟩ ::
      (final.segments.map Segment.reset).drop (t.segments.length + 1) := by
  obtain ⟨-, rfl⟩ := addSegment_ok added
  obtain ⟨rest, whole⟩ := later.segments
  have coming : final.segments.map Segment.reset =
      t.segments.map Segment.reset ++ ⟨name, t.imageCounter, 0⟩ :: rest := by
    rw [← whole]
    simp [Segment.reset]
  have length : (t.segments.map Segment.reset).length = t.segments.length := List.length_map ..
  rw [replays.segments, coming, ← length, List.drop_left, ← List.drop_drop, List.drop_left]
  rfl

theorem Replays.enterSegment {t' : SymbolTable} {name : String} (replays : Replays final t u)
    (added : t.addSegment name = .ok t') (later : Extends t' final) :
    ∃ u', u.enterSegment name = .ok u' ∧ Replays final t' u' := by
  have segments := replays.next_segment added later
  obtain ⟨fresh, rfl⟩ := addSegment_ok added
  have found : u.findSegment? name = some t.segments.length := by
    have missed : t.segments.findIdx? (fun s => s.name == name) = none := by
      rw [List.findIdx?_eq_none_iff]
      intro s member
      exact beq_false_of_ne fun same => fresh (List.mem_map.2 ⟨s, member, same⟩)
    simp [findSegment?, segments, List.findIdx?_append, missed, List.findIdx?_cons]
  have there : u.segments[t.segments.length]? = some ⟨name, t.imageCounter, 0⟩ := by
    rw [segments, List.getElem?_append_right (Nat.le_refl _), Nat.sub_self]
    rfl
  have address : addressAt t.imageCounter (0 : UInt16).toNat = .ok t.imageCounter :=
    addressAt_ok.2 rfl
  refine ⟨{ u with current := some t.segments.length, imageCounter := t.imageCounter }, ?_, ?_⟩
  · simp only [SymbolTable.enterSegment, found, there, address, bind, Except.bind, pure, Except.pure]
  · refine ⟨?_, replays.labels, rfl, fun _ => rfl⟩
    simp [segments]

theorem Replays.addLabel {t' : SymbolTable} {name : String} (replays : Replays final t u)
    (added : t.addLabel name = .ok t') : Replays final t' u := by
  obtain ⟨s, -, -, rfl⟩ := addLabel_ok added
  exact ⟨replays.segments, replays.labels, replays.current, replays.image⟩

/-- The label that the first pass defines next is found where it was put. -/
theorem Replays.findLabel {t' : SymbolTable} {name : String} (replays : Replays final t u)
    (added : t.addLabel name = .ok t') (later : Extends t' final) {s : Segment}
    (current : t.currentSegment? = some s) :
    (u.labels.find? fun l => l.name == name && l.segment == s.name) =
      some ⟨name, s.name, s.counter⟩ := by
  obtain ⟨s', current', fresh, rfl⟩ := addLabel_ok added
  cases current.symm.trans current'
  obtain ⟨rest, whole⟩ := later.labels
  have missed : (t.labels.find? fun l => l.name == name && l.segment == s.name) = none := by
    rw [List.find?_eq_none]
    intro l member same
    have key : l.key = (name, s.name) := by simpa [Label.key] using same
    exact fresh (key ▸ List.mem_map_of_mem member)
  rw [replays.labels, ← whole]
  simp [List.find?_append, missed]

/-! ## Addresses -/

/-- Addresses of labels do not depend on the counters. -/
theorem addressOf?_congr (same : t.segments.map Segment.reset = u.segments.map Segment.reset)
    (l : Label) : t.addressOf? l = u.addressOf? l := by
  have lookup : ∀ v : SymbolTable, v.addressOf? l =
      ((v.segments.map Segment.reset).find? fun s => s.name == l.segment).elim (.ok none)
        fun s => (addressAt s.start l.offset.toNat).map some := by
    intro v
    have through : ((fun s : Segment => s.name == l.segment) ∘ Segment.reset) =
        fun s => s.name == l.segment := rfl
    rw [List.find?_map, through]
    unfold addressOf?
    cases v.segments.find? fun s => s.name == l.segment <;> rfl
  rw [lookup t, lookup u, same]

theorem Replays.reset_final (replays : Replays final t u) (later : Extends t final) :
    u.segments.map Segment.reset = final.segments.map Segment.reset := by
  obtain ⟨rest, whole⟩ := later.segments
  have length : (t.segments.map Segment.reset).length = t.segments.length := List.length_map ..
  have twice : Segment.reset ∘ Segment.reset = Segment.reset := rfl
  have coming : (final.segments.map Segment.reset).drop t.segments.length = rest := by
    rw [← whole, ← length, List.drop_left]
  calc u.segments.map Segment.reset
      = t.segments.map Segment.reset ++ (final.segments.map (Segment.reset ∘ Segment.reset)).drop
          t.segments.length := by
        rw [replays.segments, List.map_append, List.map_drop, List.map_map]
    _ = t.segments.map Segment.reset ++ rest := by rw [twice, coming]
    _ = final.segments.map Segment.reset := whole

/-- The segment of a label of a sized table, and the label's address. -/
theorem Sized.addressOf?_ok (sized : Sized origin t) {l : Label} (member : l ∈ t.labels) :
    ∃ s address, s ∈ t.segments ∧ s.name = l.segment ∧ l.offset ≤ s.counter ∧
      t.addressOf? l = .ok (some address) ∧ address.toNat = s.start.toNat + l.offset.toNat := by
  obtain ⟨s, known, name, inside⟩ := sized.inside l member
  have bound := sized.filled.end_le known
  have below := t.imageCounter.toNat_lt
  rw [UInt16.le_iff_toNat_le] at inside
  obtain ⟨address, reached⟩ : ∃ address, addressAt s.start l.offset.toNat = .ok address := by
    refine ⟨UInt32.ofNat (s.start.toNat + l.offset.toNat), addressAt_ok.2 ?_⟩
    exact UInt32.toNat_ofNat_of_lt' (show _ < 4294967296 by omega)
  refine ⟨s, address, known, name, UInt16.le_iff_toNat_le.2 inside, ?_, addressAt_ok.1 reached⟩
  simp only [addressOf?, ← name, find?_segment sized.segmentNames known, reached, Except.map]

end Asm86.Symbols.SymbolTable
