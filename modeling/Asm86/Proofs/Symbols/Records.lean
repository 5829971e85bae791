/-
# Asm86.Proofs.Symbols.Records -- what the records of a snapshot say

A snapshot of a sized table describes the image by itself: its segment records lie one
behind the other (`segmentRecords_chain`), and every label record lies in the segment that
it names (`label_of_record`).  `Snapshot.reference?` finds the record that a name means on a
line of some segment; it agrees with looking the name up in the table
(`resolve?_reference?`).
-/
import Asm86.Proofs.Symbols.Replay
import Mathlib.Data.List.Chain

namespace Asm86.Symbols

open Asm86.Checked

set_option autoImplicit false

namespace Snapshot

/-- The records of the segments, in order. -/
def segmentRecords (s : Snapshot) : List Symbol := s.filter fun r => r.kind == .segment

/-- The records of the labels, in order. -/
def labelRecords (s : Snapshot) : List Symbol := s.filter fun r => r.kind == .label

/-- The label record with this name in the segment, else the first one with this name. -/
def reference? (s : Snapshot) (segment : Option String) (name : String) : Option Symbol :=
  (s.labelRecords.find? fun r => r.label == name && some r.segment == segment).or
    (s.labelRecords.find? fun r => r.label == name)

/-- The record of a segment. -/
def segmentRecord? (s : Snapshot) (segment : Option String) : Option Symbol :=
  s.segmentRecords.find? fun r => some r.segment == segment

end Snapshot

/-! ## Segments -/

/-- Each segment starts where the one before it ends. -/
theorem Contiguous.chain {start stop : Nat} {xs : List Segment} (filled : Contiguous start xs stop) :
    xs.IsChain fun s t => t.start.toNat = s.start.toNat + s.counter.toNat := by
  induction xs generalizing start with
  | nil => exact .nil
  | cons s rest ih =>
      obtain ⟨place, others⟩ := filled
      cases rest with
      | nil => exact .singleton s
      | cons t rest =>
          refine .cons_cons ?_ (ih others)
          rw [others.1, place]

namespace SymbolTable

variable {t : SymbolTable} {s : Snapshot} {origin : Nat}

theorem segmentRecords_eq (frozen : t.freeze = .ok s) :
    s.segmentRecords = t.segments.map Segment.symbol := by
  obtain ⟨records, recorded, rfl⟩ := freeze_ok.1 frozen
  exact filter_segments (kind_of_records recorded)

theorem labelRecords_forall₂ (frozen : t.freeze = .ok s) :
    List.Forall₂ (fun l r => t.labelSymbol l = .ok r) t.labels s.labelRecords := by
  obtain ⟨records, recorded, rfl⟩ := freeze_ok.1 frozen
  rw [Snapshot.labelRecords, filter_labels (kind_of_records recorded)]
  exact recorded

theorem segmentRecords_chain (sized : Sized origin t) (frozen : t.freeze = .ok s) :
    s.segmentRecords.IsChain fun r r' =>
      r'.address.toNat = r.address.toNat + r.offset.toNat := by
  rw [segmentRecords_eq frozen, List.isChain_map]
  exact sized.filled.chain

theorem segmentRecords_head (sized : Sized origin t) (frozen : t.freeze = .ok s) :
    ∀ r ∈ s.segmentRecords.head?, r.address.toNat = origin := by
  rw [segmentRecords_eq frozen]
  have filled := sized.filled
  cases segments : t.segments with
  | nil => simp
  | cons first rest =>
      rw [segments] at filled
      rintro r ⟨⟩
      exact filled.1

/-- The segments together are as long as the image. -/
theorem segmentRecords_sum (sized : Sized origin t) (frozen : t.freeze = .ok s) :
    t.imageCounter.toNat = origin + (s.segmentRecords.map fun r => r.offset.toNat).sum := by
  rw [segmentRecords_eq frozen, List.map_map]
  exact sized.filled.stop_eq

/-! ## Labels -/

/-- The record of a label of a sized table. -/
theorem labelSymbol_sized (sized : Sized origin t) {l : Label} {r : Symbol} (member : l ∈ t.labels)
    (recorded : t.labelSymbol l = .ok r) :
    ∃ seg ∈ t.segments, seg.name = l.segment ∧ l.offset ≤ seg.counter ∧
      r.label = l.name ∧ r.segment = l.segment ∧ r.offset = l.offset ∧
      r.address.toNat = seg.start.toNat + l.offset.toNat := by
  obtain ⟨address, found, rfl⟩ := labelSymbol_ok.1 recorded
  obtain ⟨seg, address', known, name, inside, found', place⟩ := sized.addressOf?_ok member
  cases found.symm.trans found'
  exact ⟨seg, known, name, inside, rfl, rfl, rfl, place⟩

/-- Every label record comes from a label, and lies in the segment that it names. -/
theorem label_of_record (sized : Sized origin t) (frozen : t.freeze = .ok s) {r : Symbol}
    (member : r ∈ s.labelRecords) :
    ∃ l ∈ t.labels, t.labelSymbol l = .ok r ∧
      ∃ seg ∈ s.segmentRecords, seg.segment = r.segment ∧ r.offset ≤ seg.offset ∧
        r.address.toNat = seg.address.toNat + r.offset.toNat := by
  obtain ⟨l, known, recorded⟩ := exists_of_mem_right (labelRecords_forall₂ frozen) member
  obtain ⟨seg, there, name, inside, -, segment, offset, place⟩ :=
    labelSymbol_sized sized known recorded
  refine ⟨l, known, recorded, seg.symbol, ?_, name.trans segment.symm, ?_, ?_⟩
  · rw [segmentRecords_eq frozen]
    exact List.mem_map_of_mem there
  · rw [offset]
    exact inside
  · rw [place, offset]
    rfl

/-! ## References -/

/-- What a table finds for a name, its snapshot finds on a line of the current segment. -/
theorem resolve?_reference? {u : SymbolTable} (frozen : t.freeze = .ok s) (labels : u.labels = t.labels)
    (name : String) :
    Option.Rel (fun l r => t.labelSymbol l = .ok r) (u.resolve? name)
      (s.reference? (u.currentSegment?.map Segment.name) name) := by
  have records := labelRecords_forall₂ frozen
  have named : ∀ l r, t.labelSymbol l = .ok r → r.label = l.name ∧ r.segment = l.segment := by
    intro l r recorded
    obtain ⟨address, -, rfl⟩ := labelSymbol_ok.1 recorded
    exact ⟨rfl, rfl⟩
  refine or_rel ?_ ?_
  · unfold resolveLocal?
    rw [labels]
    cases u.currentSegment? with
    | none =>
        have nowhere : (s.labelRecords.find? fun r => r.label == name && some r.segment == none) =
            none := by simp
        simp only [Option.bind_none, Option.map_none, nowhere]
        exact .none
    | some seg =>
        refine find?_rel records fun l r recorded => ?_
        obtain ⟨label, segment⟩ := named l r recorded
        rw [label, segment]
        rfl
  · rw [labels]
    refine find?_rel records fun l r recorded => ?_
    rw [(named l r recorded).1]

/-- The record of a segment, by its name. -/
theorem segmentRecord?_eq (sized : Sized origin t) (frozen : t.freeze = .ok s) {seg : Segment}
    (known : seg ∈ t.segments) : s.segmentRecord? (some seg.name) = some seg.symbol := by
  have through : ((fun r : Symbol => some r.segment == some seg.name) ∘ Segment.symbol) =
      fun x => x.name == seg.name := rfl
  rw [Snapshot.segmentRecord?, segmentRecords_eq frozen, List.find?_map, through,
    find?_segment sized.segmentNames known]
  rfl

end SymbolTable

end Asm86.Symbols
