/-
# Asm86.Proofs.Symbols.Consistent -- what every table satisfies

A table may be edited in any order: segments can be left and entered again, lie over one
another, and go on after their counters were put back to zero.  So a label need not lie before
the counter of its segment.  What every edit keeps is `Consistent`: names find one segment or
label each, the image counter stands where the current segment does, and no segment or label
reaches beyond the 32 bits of an image address.

* No address of a consistent table leaves its range (`Consistent.here?_eq`,
  `Consistent.addressOf?_ok`, `Consistent.enterSegment_fits`, `Consistent.freeze_ok`); only moving
  can get there (`Consistent.edit_overflow`, `advance_overflow`).
* A table that is handed over loses its counters and nothing else (`handoff_keeps_symbols`).
-/
import Asm86.Proofs.Symbols.Canonical
import Asm86.Proofs.Symbols.Handoff

namespace Asm86.Symbols

open Asm86.Checked

set_option autoImplicit false

/-- The operations on a table. -/
inductive Edit where
  | addSegment (name : String)
  | addLabel (name : String)
  | enterSegment (name : String)
  | advance (len : Nat)
  deriving DecidableEq, Repr

namespace SymbolTable

def edit (t : SymbolTable) : Edit → Except SymbolError SymbolTable
  | .addSegment name => t.addSegment name
  | .addLabel name => t.addLabel name
  | .enterSegment name => t.enterSegment name
  | .advance len => t.advance len

/-- `u` comes from `t` by edits.  One that is refused gives no new table. -/
inductive Edited : SymbolTable → SymbolTable → Prop where
  | refl (t : SymbolTable) : Edited t t
  | step {t u v : SymbolTable} (e : Edit) (done : t.edit e = .ok u) (rest : Edited u v) : Edited t v

theorem Edited.trans {t u v : SymbolTable} (first : Edited t u) (second : Edited u v) :
    Edited t v := by
  induction first with
  | refl => exact second
  | step e done _ ih => exact .step e done (ih second)

theorem Edited.once {t u : SymbolTable} (e : Edit) (done : t.edit e = .ok u) : Edited t u :=
  .step e done (.refl u)

/-! ## Entering and moving -/

theorem enterSegment_ok {t u : SymbolTable} {name : String} :
    t.enterSegment name = .ok u ↔
      ∃ i s address, t.findSegment? name = some i ∧ t.segments[i]? = some s ∧
        addressAt s.start s.counter.toNat = .ok address ∧
        u = { t with current := some i, imageCounter := address } := by
  unfold enterSegment
  cases found : t.findSegment? name with
  | none => simp
  | some i =>
      cases there : t.segments[i]? with
      | none => simp [there]
      | some s =>
          simp only [there, bind_eq_ok, pure, Except.pure, Except.ok.injEq]
          constructor
          · rintro ⟨address, reached, rfl⟩
            exact ⟨i, s, address, rfl, there, reached, rfl⟩
          · rintro ⟨j, s', address, same, there', reached, rfl⟩
            cases same
            cases there.symm.trans there'
            exact ⟨address, reached, rfl⟩

theorem addressAt_fits {start : UInt32} {offset : Nat} (fits : start.toNat + offset < 4294967296) :
    ∃ address, addressAt start offset = .ok address ∧ address.toNat = start.toNat + offset := by
  have reached : addressAt start offset = .ok (start + UInt32.ofNat offset) := if_pos fits
  exact ⟨_, reached, addressAt_ok.1 reached⟩

theorem addressAt_overflow {start : UInt32} {offset : Nat} :
    addressAt start offset = .error .addressOverflow ↔ 4294967296 ≤ start.toNat + offset := by
  unfold addressAt
  split <;> simp <;> omega

/-- **Moving leaves the image exactly when the segment has room and the image has not.** -/
theorem advance_overflow {t : SymbolTable} {len : Nat} :
    t.advance len = .error .addressOverflow ↔
      ∃ s, t.currentSegment? = some s ∧ s.counter.toNat + len < 65536 ∧
        4294967296 ≤ t.imageCounter.toNat + len := by
  unfold advance
  cases current : t.current with
  | none => simp [currentSegment?, current]
  | some i =>
      cases found : t.currentSegment? with
      | none => simp
      | some s =>
          simp only [Option.some.injEq, exists_eq_left']
          split
          · rename_i room
            rw [← addressAt_overflow]
            cases addressAt t.imageCounter len <;> simp [bind, Except.bind, pure, Except.pure, room]
          · rename_i full
            simp [full]

/-! ## The invariant -/

structure Consistent (t : SymbolTable) : Prop where
  segmentNames : (t.segments.map Segment.name).Nodup
  labelKeys : (t.labels.map Label.key).Nodup
  owned : t.Owned
  /-- The image counter stands at the counter of the current segment. -/
  current : ∀ i, t.current = some i →
    ∃ s, t.segments[i]? = some s ∧ t.imageCounter.toNat = s.start.toNat + s.counter.toNat
  segmentEnds : ∀ s ∈ t.segments, s.start.toNat + s.counter.toNat < 4294967296
  labelEnds : ∀ s ∈ t.segments, ∀ l ∈ t.labels, l.segment = s.name →
    s.start.toNat + l.offset.toNat < 4294967296

theorem consistent_ofOrigin (origin : UInt32) : (ofOrigin origin).Consistent where
  segmentNames := List.nodup_nil
  labelKeys := List.nodup_nil
  owned := fun _ member => absurd member List.not_mem_nil
  current := fun _ impossible => nomatch impossible
  segmentEnds := fun _ member => absurd member List.not_mem_nil
  labelEnds := fun _ member => absurd member List.not_mem_nil

variable {t u : SymbolTable} {name : String}

theorem Consistent.addSegment (consistent : t.Consistent) (added : t.addSegment name = .ok u) :
    u.Consistent := by
  obtain ⟨fresh, rfl⟩ := addSegment_ok added
  refine ⟨?_, consistent.labelKeys, ?_, ?_, ?_, ?_⟩
  · simpa using List.Nodup.concat fresh consistent.segmentNames
  · intro l member
    have known := consistent.owned l member
    simp only [List.map_append]
    exact List.mem_append_left _ known
  · rintro i ⟨⟩
    exact ⟨⟨name, t.imageCounter, 0⟩, by simp, rfl⟩
  · intro s member
    rcases List.mem_append.1 member with old | new
    · exact consistent.segmentEnds s old
    · cases List.mem_singleton.1 new
      exact t.imageCounter.toNat_lt
  · intro s member l labelled own
    rcases List.mem_append.1 member with old | new
    · exact consistent.labelEnds s old l labelled own
    · -- A label of the new name would belong to a segment that was there before.
      cases List.mem_singleton.1 new
      have known := consistent.owned l labelled
      rw [own] at known
      exact absurd known fresh

theorem Consistent.addLabel (consistent : t.Consistent) (added : t.addLabel name = .ok u) :
    u.Consistent := by
  obtain ⟨s, current, fresh, rfl⟩ := addLabel_ok added
  have known := currentSegment?_mem current
  refine ⟨consistent.segmentNames, ?_, ?_, consistent.current, consistent.segmentEnds, ?_⟩
  · simpa [Label.key] using List.Nodup.concat fresh consistent.labelKeys
  · intro l member
    rcases List.mem_append.1 member with old | new
    · exact consistent.owned l old
    · cases List.mem_singleton.1 new
      exact List.mem_map_of_mem known
  · intro s' member l labelled own
    rcases List.mem_append.1 labelled with old | new
    · exact consistent.labelEnds s' member l old own
    · cases List.mem_singleton.1 new
      have same : s = s' := List.inj_on_of_nodup_map consistent.segmentNames known member own
      subst same
      exact consistent.segmentEnds s known

theorem Consistent.enterSegment (consistent : t.Consistent) (entered : t.enterSegment name = .ok u) :
    u.Consistent := by
  obtain ⟨i, s, address, -, there, reached, rfl⟩ := enterSegment_ok.1 entered
  refine ⟨consistent.segmentNames, consistent.labelKeys, consistent.owned, ?_,
    consistent.segmentEnds, consistent.labelEnds⟩
  rintro j ⟨⟩
  exact ⟨s, there, addressAt_ok.1 reached⟩

theorem Consistent.advance {len : Nat} (consistent : t.Consistent) (moved : t.advance len = .ok u) :
    u.Consistent := by
  obtain ⟨i, s, address, current, found, fits, stop, rfl⟩ := advance_ok.1 moved
  have known := List.mem_of_getElem? found
  have grown := counter_add fits
  have reached := addressAt_ok.1 stop
  have below := address.toNat_lt
  obtain ⟨s', there, stands⟩ := consistent.current i current
  cases found.symm.trans there
  have names : (t.segments.set i { s with counter := s.counter + UInt16.ofNat len }).map
      Segment.name = t.segments.map Segment.name := map_set_of_eq found rfl
  refine ⟨?_, consistent.labelKeys, ?_, ?_, ?_, ?_⟩
  · simpa only [names] using consistent.segmentNames
  · intro l member
    simpa only [names] using consistent.owned l member
  · -- The image counter moves by as much as the counter of the current segment.
    intro j same
    cases current.symm.trans same
    refine ⟨_, List.getElem?_set_self (List.getElem?_eq_some_iff.1 found).1, ?_⟩
    show address.toNat = s.start.toNat + (s.counter + UInt16.ofNat len).toNat
    omega
  · intro x member
    rcases List.mem_or_eq_of_mem_set member with old | rfl
    · exact consistent.segmentEnds x old
    · show s.start.toNat + (s.counter + UInt16.ofNat len).toNat < 4294967296
      omega
  · intro x member l labelled own
    rcases List.mem_or_eq_of_mem_set member with old | rfl
    · exact consistent.labelEnds x old l labelled own
    · exact consistent.labelEnds s known l labelled own

theorem Consistent.edit {e : Edit} (consistent : t.Consistent) (done : t.edit e = .ok u) :
    u.Consistent := by
  cases e with
  | addSegment name => exact consistent.addSegment done
  | addLabel name => exact consistent.addLabel done
  | enterSegment name => exact consistent.enterSegment done
  | advance len => exact consistent.advance done

theorem Edited.consistent (edited : Edited t u) (consistent : t.Consistent) : u.Consistent := by
  induction edited with
  | refl => exact consistent
  | step e done _ ih => exact ih (consistent.edit done)

/-- A table that is handed over keeps the starts and the labels, and its counters are zero. -/
theorem Consistent.rebuilt (consistent : t.Consistent) :
    (ofParts (t.segments.map Segment.reset) t.labels).Consistent := by
  have names : (t.segments.map Segment.reset).map Segment.name = t.segments.map Segment.name :=
    List.map_map
  refine ⟨?_, consistent.labelKeys, ?_, fun _ impossible => (nomatch impossible), ?_, ?_⟩
  · show ((t.segments.map Segment.reset).map Segment.name).Nodup
    rw [names]
    exact consistent.segmentNames
  · intro l member
    show l.segment ∈ (t.segments.map Segment.reset).map Segment.name
    rw [names]
    exact consistent.owned l member
  · intro x member
    obtain ⟨s, -, rfl⟩ := List.mem_map.1 member
    exact s.start.toNat_lt
  · intro x member l labelled own
    obtain ⟨s, known, rfl⟩ := List.mem_map.1 member
    exact consistent.labelEnds s known l labelled own

/-! ## Addresses of a consistent table -/

theorem Consistent.current_of_segment (consistent : t.Consistent) {s : Segment}
    (current : t.currentSegment? = some s) :
    t.imageCounter.toNat = s.start.toNat + s.counter.toNat := by
  obtain ⟨i, isCurrent, found⟩ := Option.bind_eq_some_iff.1 current
  obtain ⟨s', there, stands⟩ := consistent.current i isCurrent
  cases found.symm.trans there
  exact stands

/-- The next byte goes where the image counter stands. -/
theorem Consistent.here?_eq (consistent : t.Consistent) :
    t.here? = .ok (t.currentSegment?.map fun _ => t.imageCounter) := by
  unfold here?
  cases current : t.currentSegment? with
  | none => rfl
  | some s =>
      have reached : addressAt s.start s.counter.toNat = .ok t.imageCounter :=
        addressAt_ok.2 (consistent.current_of_segment current)
      simp only [reached, Except.map, Option.map_some]

theorem Consistent.addressOf?_ok (consistent : t.Consistent) {l : Label} (member : l ∈ t.labels) :
    ∃ s ∈ t.segments, ∃ address, s.name = l.segment ∧ t.addressOf? l = .ok (some address) ∧
      address.toNat = s.start.toNat + l.offset.toNat := by
  obtain ⟨s, known, own⟩ := List.mem_map.1 (consistent.owned l member)
  obtain ⟨address, reached, place⟩ :=
    addressAt_fits (consistent.labelEnds s known l member own.symm)
  refine ⟨s, known, address, own, ?_, place⟩
  simp only [addressOf?, ← own, find?_segment consistent.segmentNames known, reached, Except.map]

theorem Consistent.enterSegment_fits (consistent : t.Consistent) (name : String) :
    t.enterSegment name ≠ .error .addressOverflow := by
  unfold SymbolTable.enterSegment
  split
  · simp
  · split
    · simp
    · rename_i s there
      obtain ⟨address, reached, -⟩ :=
        addressAt_fits (consistent.segmentEnds s (List.mem_of_getElem? there))
      simp [reached, bind, Except.bind, pure, Except.pure]

/-- Moving is the only edit that can leave the range of addresses. -/
theorem Consistent.edit_overflow (consistent : t.Consistent) {e : Edit} :
    t.edit e = .error .addressOverflow ↔
      ∃ len, e = .advance len ∧ t.advance len = .error .addressOverflow := by
  cases e with
  | addSegment name =>
      simp only [SymbolTable.edit, SymbolTable.addSegment]
      split <;> simp
  | addLabel name =>
      simp only [SymbolTable.edit, SymbolTable.addLabel]
      split
      · simp
      · split <;> simp
  | enterSegment name => simp [SymbolTable.edit, consistent.enterSegment_fits name]
  | advance len => simp [SymbolTable.edit]

theorem Consistent.freeze_ok (consistent : t.Consistent) : ∃ s, t.freeze = .ok s := by
  have recorded : ∀ labels : List Label, (∀ l ∈ labels, l ∈ t.labels) →
      ∃ records, List.Forall₂ (fun l r => t.labelSymbol l = .ok r) labels records := by
    intro labels known
    induction labels with
    | nil => exact ⟨[], .nil⟩
    | cons l rest ih =>
        obtain ⟨known, others⟩ := List.forall_mem_cons.1 known
        obtain ⟨records, recorded⟩ := ih others
        obtain ⟨s, -, address, -, found, -⟩ := consistent.addressOf?_ok known
        exact ⟨_ :: records, .cons (labelSymbol_ok.2 ⟨some address, found, rfl⟩) recorded⟩
  obtain ⟨records, recorded⟩ := recorded t.labels fun _ member => member
  exact ⟨_, SymbolTable.freeze_ok.2 ⟨records, recorded, rfl⟩⟩

/-! ## Handing over -/

/-- The names of a snapshot are those of its table. -/
theorem freeze_wellNamed {s : Snapshot} (frozen : t.freeze = .ok s) (owned : t.Owned)
    (segments : ∀ x ∈ t.segments, FitsField x.name) (labels : ∀ l ∈ t.labels, FitsField l.name) :
    s.WellNamed := by
  obtain ⟨records, recorded, rfl⟩ := SymbolTable.freeze_ok.1 frozen
  intro r member
  rcases List.mem_append.1 member with segment | label
  · obtain ⟨x, known, rfl⟩ := List.mem_map.1 segment
    have empty : FitsField "" := by decide
    exact ⟨empty, segments x known⟩
  · obtain ⟨l, known, record⟩ := exists_of_mem_right recorded label
    obtain ⟨address, -, rfl⟩ := labelSymbol_ok.1 record
    obtain ⟨x, there, own⟩ := List.mem_map.1 (owned l known)
    exact ⟨labels l known, own ▸ segments x there⟩

theorem freeze_length {s : Snapshot} (frozen : t.freeze = .ok s) :
    s.length = t.segments.length + t.labels.length := by
  obtain ⟨records, recorded, rfl⟩ := SymbolTable.freeze_ok.1 frozen
  rw [List.length_append, List.length_map, recorded.length_eq]

/-- **Handing over loses nothing but the counters.**  The symbols of a table that was edited in
any way survive the journey as a block: the rebuilt table has the same segments and labels in
the same order, starts with all counters at zero and with no current segment, and the lengths
that come with it are the old counters. -/
theorem handoff_keeps_symbols {origin : UInt32} (edited : (ofOrigin origin).Edited t)
    (segments : ∀ s ∈ t.segments, FitsField s.name) (labels : ∀ l ∈ t.labels, FitsField l.name)
    (few : t.segments.length + t.labels.length < 4294967296) :
    ∃ s bytes rebuilt, t.freeze = .ok s ∧ s.toBytes = .ok bytes ∧ Snapshot.ofBytes bytes = .ok s ∧
      s.rebuild = .ok rebuilt ∧
      rebuilt.table.segments = t.segments.map (fun x => { x with counter := 0 }) ∧
      rebuilt.table.labels = t.labels ∧
      rebuilt.table.current = none ∧
      rebuilt.table.imageCounter = (t.segments.head?.map Segment.start).getD 0 ∧
      rebuilt.lengths = t.segments.map Segment.counter := by
  have consistent := edited.consistent (consistent_ofOrigin origin)
  obtain ⟨s, frozen⟩ := consistent.freeze_ok
  have fits : s.Transferable :=
    { named := freeze_wellNamed frozen consistent.owned segments labels
      ordered := freeze_ordered frozen
      few := freeze_length frozen ▸ few }
  obtain ⟨written, read⟩ := fits.toBytes_ofBytes
  refine ⟨s, s.block, _, frozen, written, read, rebuild_freeze consistent.owned frozen, rfl, rfl, rfl,
    ?_, rfl⟩
  show ((t.segments.map Segment.reset).head?.map Segment.start).getD 0 = _
  rw [List.head?_map, Option.map_map]
  rfl

/-- A table whose first segment was entered again, and now reaches into the second. -/
def reentered : SymbolTable where
  segments := [⟨"C", 256, 6⟩, ⟨"D", 261, 3⟩]
  labels := [⟨"N", "C", 5⟩, ⟨"N", "D", 0⟩]
  current := some 0
  imageCounter := 262

theorem handoff_reentered :
    (ofOrigin 256).Edited reentered ∧
      ∃ s bytes rebuilt, reentered.freeze = .ok s ∧ s.toBytes = .ok bytes ∧
        Snapshot.ofBytes bytes = .ok s ∧ s.rebuild = .ok rebuilt ∧
        rebuilt.table.segments = [⟨"C", 256, 0⟩, ⟨"D", 261, 0⟩] ∧
        rebuilt.table.labels = [⟨"N", "C", 5⟩, ⟨"N", "D", 0⟩] ∧
        rebuilt.table.current = none ∧ rebuilt.table.imageCounter = 256 ∧ rebuilt.lengths = [6, 3] := by
  have edited : (ofOrigin 256).Edited reentered :=
    .step (.addSegment "C") rfl <| .step (.advance 5) rfl <| .step (.addLabel "N") rfl <|
      .step (.addSegment "D") rfl <| .step (.addLabel "N") rfl <| .step (.advance 3) rfl <|
      .step (.enterSegment "C") rfl <| .step (.advance 1) rfl <| .refl _
  exact ⟨edited, handoff_keeps_symbols edited (by decide +kernel) (by decide +kernel) (by decide)⟩

end SymbolTable

end Asm86.Symbols
