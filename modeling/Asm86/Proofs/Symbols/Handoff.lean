/-
# Asm86.Proofs.Symbols.Handoff -- what a snapshot keeps of a table

A snapshot has a record for every segment and every label, in order (`freeze_ok`).  The
table rebuilt from it has the same segments with their counters at zero and the same
labels, and the lengths handed over with it are the old counters (`rebuild_freeze`).
-/
import Asm86.Proofs.Symbols.Block
import Asm86.Proofs.Symbols.Growth

namespace Asm86.Symbols

open Asm86.Checked

set_option autoImplicit false

namespace SymbolTable

/-- Every label belongs to a segment of the table. -/
def Owned (t : SymbolTable) : Prop := ∀ l ∈ t.labels, l.segment ∈ t.segments.map Segment.name

theorem Sized.owned {origin : Nat} {t : SymbolTable} (sized : Sized origin t) : t.Owned := by
  intro l member
  obtain ⟨s, known, name, -⟩ := sized.inside l member
  exact List.mem_map.2 ⟨s, known, name⟩

/-! ## Freezing -/

theorem labelSymbol_ok {t : SymbolTable} {l : Label} {r : Symbol} :
    t.labelSymbol l = .ok r ↔
      ∃ address, t.addressOf? l = .ok address ∧
        r = ⟨.label, l.name, l.segment, l.offset, address.getD 0⟩ := by
  simp only [labelSymbol, bind_eq_ok, pure, Except.pure, Except.ok.injEq, @eq_comm _ r]

theorem freeze_ok {t : SymbolTable} {s : Snapshot} :
    t.freeze = .ok s ↔
      ∃ records : List Symbol, List.Forall₂ (fun l r => t.labelSymbol l = .ok r) t.labels records ∧
        s = t.segments.map Segment.symbol ++ records := by
  simp only [freeze, bind_eq_ok, mapM_eq_ok, pure, Except.pure, Except.ok.injEq, @eq_comm _ s]

theorem kind_of_segments {t : SymbolTable} {r : Symbol}
    (member : r ∈ t.segments.map Segment.symbol) : r.kind = .segment := by
  obtain ⟨s, -, rfl⟩ := List.mem_map.1 member
  rfl

theorem kind_of_records {t : SymbolTable} {labels : List Label} {records : List Symbol}
    (recorded : List.Forall₂ (fun l r => t.labelSymbol l = .ok r) labels records) :
    ∀ r ∈ records, r.kind = .label := by
  intro r member
  obtain ⟨l, -, frozen⟩ := exists_of_mem_right recorded member
  obtain ⟨address, -, rfl⟩ := labelSymbol_ok.1 frozen
  rfl

theorem freeze_ordered {t : SymbolTable} {s : Snapshot} (frozen : t.freeze = .ok s) : s.Ordered := by
  obtain ⟨records, recorded, rfl⟩ := freeze_ok.1 frozen
  exact ⟨_, records, rfl, fun _ => kind_of_segments, kind_of_records recorded⟩

/-! ## Rebuilding -/

theorem filter_segments {t : SymbolTable} {records : List Symbol}
    (labels : ∀ r ∈ records, r.kind = .label) :
    (t.segments.map Segment.symbol ++ records).filter (fun r => r.kind == .segment) =
      t.segments.map Segment.symbol := by
  rw [List.filter_append, List.filter_eq_self.2, List.filter_eq_nil_iff.2, List.append_nil]
  · intro r member
    simp [labels r member]
  · intro r member
    simp [kind_of_segments member]

theorem filter_labels {t : SymbolTable} {records : List Symbol}
    (labels : ∀ r ∈ records, r.kind = .label) :
    (t.segments.map Segment.symbol ++ records).filter (fun r => r.kind == .label) = records := by
  rw [List.filter_append, List.filter_eq_nil_iff.2, List.filter_eq_self.2, List.nil_append]
  · intro r member
    simp [labels r member]
  · intro r member
    simp [kind_of_segments member]

/-- The labels of the records are those the records were made from. -/
theorem mapM_labelIn {t : SymbolTable} {labels : List Label} {records : List Symbol}
    (recorded : List.Forall₂ (fun l r => t.labelSymbol l = .ok r) labels records)
    (known : ∀ l ∈ labels, l.segment ∈ t.segments.map Segment.name) :
    records.mapM (Snapshot.labelIn (t.segments.map Segment.reset)) = .ok labels := by
  rw [mapM_eq_ok]
  induction recorded with
  | nil => exact .nil
  | @cons l r labels records first _ ih =>
      refine .cons ?_ (ih fun l member => known l (List.mem_cons_of_mem _ member))
      obtain ⟨address, -, rfl⟩ := labelSymbol_ok.1 first
      obtain ⟨s, member, name⟩ := List.mem_map.1 (known l (List.mem_cons_self ..))
      have found : (t.segments.map Segment.reset).any (fun seg => seg.name == l.segment) = true := by
        rw [List.any_map, List.any_eq_true]
        exact ⟨s, member, by simp [Segment.reset, name]⟩
      simp only [Snapshot.labelIn, found, ↓reduceIte]

theorem rebuild_freeze {t : SymbolTable} {s : Snapshot} (owned : t.Owned)
    (frozen : t.freeze = .ok s) :
    s.rebuild =
      .ok ⟨ofParts (t.segments.map Segment.reset) t.labels, t.segments.map Segment.counter⟩ := by
  have order := Snapshot.checkOrder_ordered (freeze_ordered frozen) 0
  obtain ⟨records, recorded, rfl⟩ := freeze_ok.1 frozen
  have onlyLabels := kind_of_records recorded
  have segments : Snapshot.segments (t.segments.map Segment.symbol ++ records) =
      t.segments.map Segment.reset := by
    rw [Snapshot.segments, filter_segments onlyLabels, List.map_map]
    rfl
  have lengths : Snapshot.lengths (t.segments.map Segment.symbol ++ records) =
      t.segments.map Segment.counter := by
    rw [Snapshot.lengths, filter_segments onlyLabels, List.map_map]
    rfl
  simp only [Snapshot.rebuild, order, segments, lengths, filter_labels onlyLabels,
    mapM_labelIn recorded owned, bind, Except.bind, pure, Except.pure]

end SymbolTable

end Asm86.Symbols
