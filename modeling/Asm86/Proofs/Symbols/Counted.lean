/-
# Asm86.Proofs.Symbols.Counted -- the table of a second pass

The second pass counts from zero again in a table that was rebuilt from a snapshot.  `Counted`
says where it stands: it still has the segments and labels that it began with, the name that
was opened last decides which segment is current, and each counter is a known number.  Of
several segments with one name it is the first that the name means
(`Snapshot.segmentIndex?`).

Moving and entering keep this (`Counted.advance`, `Counted.enter`), for any snapshot whatever.
-/
import Asm86.Proofs.Symbols.Consistent
import Asm86.Proofs.Symbols.Records

namespace Asm86.Symbols

open Asm86.Checked

set_option autoImplicit false

namespace Snapshot

/-- The place of the segment that a name means. -/
def segmentIndex? (s : Snapshot) (name : String) : Option Nat :=
  s.segmentRecords.findIdx? fun r => r.segment == name

/-- How many of `len` bytes, written while a segment is open, go to the segment at `k`. -/
def share (s : Snapshot) (opened : Option String) (len k : Nat) : Nat :=
  if opened.bind s.segmentIndex? = some k then len else 0

theorem share_add (s : Snapshot) (opened : Option String) (m n k : Nat) :
    s.share opened (m + n) k = s.share opened m k + s.share opened n k := by
  unfold share
  split <;> rfl

theorem share_zero (s : Snapshot) (opened : Option String) (k : Nat) : s.share opened 0 k = 0 := by
  unfold share
  split <;> rfl

end Snapshot

/-- A counter that moves takes the sum along. -/
theorem sum_set_add {xs : List Nat} {i x : Nat} (there : xs[i]? = some x) (len : Nat) :
    (xs.set i (x + len)).sum = xs.sum + len := by
  induction xs generalizing i with
  | nil => simp at there
  | cons y rest ih =>
      cases i with
      | zero =>
          cases there
          simp only [List.set_cons_zero, List.sum_cons]
          omega
      | succ i =>
          have others : (rest.set i (x + len)).sum = rest.sum + len := ih (by simpa using there)
          simp only [List.set_cons_succ, List.sum_cons, others]
          omega

/-- A table that has the segments of the snapshot and these labels, with the segment current
that `opened` means, the counters at `count` and all of them together at `total`. -/
structure Counted (s : Snapshot) (labels : List Label) (opened : Option String)
    (count : Nat → Nat) (total : Nat) (t : SymbolTable) : Prop where
  names : t.segments.map Segment.name = s.segmentRecords.map Symbol.segment
  labels : t.labels = labels
  current : t.current = opened.bind s.segmentIndex?
  counters : ∀ k seg, t.segments[k]? = some seg → seg.counter.toNat = count k
  total : (t.segments.map fun seg => seg.counter.toNat).sum = total

namespace Counted

variable {s : Snapshot} {labels : List Label} {opened : Option String} {count : Nat → Nat}
  {total : Nat} {t u : SymbolTable}

theorem advance {len : Nat} (counted : Counted s labels opened count total t)
    (moved : t.advance len = .ok u) :
    Counted s labels opened (fun k => count k + s.share opened len k) (total + len) u := by
  obtain ⟨i, seg, address, current, found, fits, -, rfl⟩ := SymbolTable.advance_ok.1 moved
  have share : ∀ k, s.share opened len k = if i = k then len else 0 := by
    intro k
    simp [Snapshot.share, ← counted.current, current]
  refine ⟨?_, counted.labels, counted.current, ?_, ?_⟩
  · refine Eq.trans ?_ counted.names
    exact map_set_of_eq found rfl
  · intro k other there
    rw [share]
    rcases Nat.decEq i k with apart | rfl
    · rw [List.getElem?_set_ne apart] at there
      rw [if_neg apart, counted.counters k other there]
      rfl
    · rw [List.getElem?_set_self (List.getElem?_eq_some_iff.1 found).1] at there
      cases there
      rw [if_pos rfl, SymbolTable.counter_add fits, counted.counters i seg found]
  · have there : (t.segments.map fun seg => seg.counter.toNat)[i]? = some seg.counter.toNat := by
      simp [found]
    rw [List.map_set, ← counted.total, ← sum_set_add there]
    exact congrArg (fun n => (List.set _ i n).sum) (SymbolTable.counter_add fits)

theorem findSegment?_eq (counted : Counted s labels opened count total t) (name : String) :
    t.findSegment? name = s.segmentIndex? name := by
  have names := congrArg (List.findIdx? (· == name)) counted.names
  rwa [List.findIdx?_map, List.findIdx?_map] at names

theorem enter {name : String} (counted : Counted s labels opened count total t)
    (entered : t.enterSegment name = .ok u) : Counted s labels (some name) count total u := by
  obtain ⟨i, seg, address, found, -, -, rfl⟩ := SymbolTable.enterSegment_ok.1 entered
  refine ⟨counted.names, counted.labels, ?_, counted.counters, counted.total⟩
  rw [Option.bind_some, ← counted.findSegment?_eq, found]

/-- The current segment has the name that was opened. -/
theorem currentSegment?_name (counted : Counted s labels opened count total t) {seg : Segment}
    (current : t.currentSegment? = some seg) :
    ∃ k, opened = some seg.name ∧ s.segmentIndex? seg.name = some k ∧ seg.counter.toNat = count k := by
  obtain ⟨i, here, found⟩ := Option.bind_eq_some_iff.1 current
  rw [counted.current] at here
  obtain ⟨name, rfl, index⟩ := Option.bind_eq_some_iff.1 here
  have own : seg.name = name := by
    rw [← counted.findSegment?_eq] at index
    obtain ⟨inRange, same, -⟩ := List.findIdx?_eq_some_iff_getElem.1 index
    rw [List.getElem?_eq_getElem inRange] at found
    cases found
    exact beq_iff_eq.1 same
  cases own
  exact ⟨i, rfl, index, counted.counters i seg found⟩

end Counted

/-! ## Rebuilt tables -/

/-- The label that a record describes. -/
def Symbol.toLabel (r : Symbol) : Label := ⟨r.label, r.segment, r.offset⟩

namespace Snapshot

theorem map_toLabel {known : List Segment} {records : List Symbol} {labels : List Label}
    (made : List.Forall₂ (fun r l => labelIn known r = .ok l) records labels) :
    labels = records.map Symbol.toLabel := by
  induction made with
  | nil => rfl
  | cons first _ ih =>
      unfold labelIn at first
      split at first
      · cases first
        rw [ih]
        rfl
      · cases first

theorem rebuild_ok {s : Snapshot} {rebuilt : Rebuilt} (done : s.rebuild = .ok rebuilt) :
    rebuilt = ⟨SymbolTable.ofParts s.segments (s.labelRecords.map Symbol.toLabel), s.lengths⟩ := by
  obtain ⟨_, -, done⟩ := bind_eq_ok.1 done
  obtain ⟨labels, made, done⟩ := bind_eq_ok.1 done
  cases done
  rw [map_toLabel (mapM_eq_ok.1 made)]
  rfl

/-- A rebuilt table has all its counting before it. -/
theorem counted_ofParts (s : Snapshot) (labels : List Label) :
    Counted s labels none (fun _ => 0) 0 (SymbolTable.ofParts s.segments labels) where
  names := by simp [SymbolTable.ofParts, segments, segmentRecords, Function.comp_def]
  labels := rfl
  current := rfl
  counters k seg there := by
    simp only [SymbolTable.ofParts, segments, List.getElem?_map, Option.map_eq_some_iff] at there
    obtain ⟨r, -, rfl⟩ := there
    rfl
  total := by simp [SymbolTable.ofParts, segments, Function.comp_def]

end Snapshot

end Asm86.Symbols
