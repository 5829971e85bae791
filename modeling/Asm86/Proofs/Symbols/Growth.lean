/-
# Asm86.Proofs.Symbols.Growth -- how a table grows in the sizing pass

The sizing pass only defines segments, defines labels and moves the counters.  Each of
these steps is inverted once (`addSegment_ok`, `addLabel_ok`, `advance_ok`).  Two facts
follow for a whole pass:

* `Sized`: the current segment is the last one, the segments lie one behind the other
  without gaps up to the image counter, names are distinct, and every label lies inside
  its segment;
* `Extends`: a later table has the same segments and labels first, and a segment never
  changes its name or its start.
-/
import Asm86.Proofs.Checked
import Asm86.Symbols.Snapshot
import Mathlib.Algebra.GroupWithZero.Nat
import Mathlib.Data.List.Nodup

namespace Asm86.Symbols

open Asm86.Checked

set_option autoImplicit false

/-- The segment as it was when it was defined. -/
def Segment.reset (s : Segment) : Segment := { s with counter := 0 }

/-- What a label is found by. -/
def Label.key (l : Label) : String × String := (l.name, l.segment)

/-- Among segments of distinct names, a name finds its segment. -/
theorem find?_segment {xs : List Segment} (distinct : (xs.map Segment.name).Nodup) {s : Segment}
    (member : s ∈ xs) : xs.find? (fun x => x.name == s.name) = some s := by
  induction xs with
  | nil => exact absurd member List.not_mem_nil
  | cons x rest ih =>
      obtain ⟨fresh, others⟩ := List.nodup_cons.1 distinct
      rcases List.mem_cons.1 member with rfl | later
      · simp
      · have other : x.name ≠ s.name := fun same =>
          fresh (same ▸ List.mem_map_of_mem later)
        rw [List.find?_cons_of_neg (by simpa using other), ih others later]

/-- Replacing a member by one with the same image keeps the images. -/
theorem map_set_of_eq {α β : Type} {f : α → β} {xs : List α} {i : Nat} {x y : α}
    (found : xs[i]? = some x) (same : f y = f x) : (xs.set i y).map f = xs.map f := by
  obtain ⟨inRange, rfl⟩ := List.getElem?_eq_some_iff.1 found
  have unchanged : f y = (xs.map f).get ⟨i, by simpa using inRange⟩ := by simp [same]
  rw [List.map_set, unchanged, List.get_eq_getElem, List.set_getElem_self]

/-! ## Image addresses -/

theorem addressAt_ok {start address : UInt32} {offset : Nat} :
    addressAt start offset = .ok address ↔ address.toNat = start.toNat + offset := by
  unfold addressAt
  have bound := address.toNat_lt
  split
  · rename_i fits
    have sum : (start + UInt32.ofNat offset).toNat = start.toNat + offset := by
      simp only [UInt32.toNat_add, UInt32.toNat_ofNat']
      omega
    rw [Except.ok.injEq, ← UInt32.toNat_inj, sum]
    exact eq_comm
  · rename_i leaves
    simp only [reduceCtorEq, false_iff]
    omega

/-! ## Segments one behind the other -/

/-- The segments fill the image from `start` up to `stop`, in order and without gaps. -/
def Contiguous : Nat → List Segment → Nat → Prop
  | start, [], stop => start = stop
  | start, s :: rest, stop => s.start.toNat = start ∧ Contiguous (start + s.counter.toNat) rest stop

theorem contiguous_append {start stop : Nat} {xs ys : List Segment} :
    Contiguous start (xs ++ ys) stop ↔
      ∃ middle, Contiguous start xs middle ∧ Contiguous middle ys stop := by
  induction xs generalizing start with
  | nil => simp [Contiguous]
  | cons s rest ih => simp only [List.cons_append, Contiguous, ih, and_assoc, exists_and_left]

theorem Contiguous.stop_eq {start stop : Nat} {xs : List Segment} (filled : Contiguous start xs stop) :
    stop = start + (xs.map fun s => s.counter.toNat).sum := by
  induction xs generalizing start with
  | nil => simpa [Contiguous] using filled.symm
  | cons s rest ih =>
      have others := ih filled.2
      simp only [List.map_cons, List.sum_cons]
      omega

/-- A segment ends before the whole does. -/
theorem Contiguous.end_le {start stop : Nat} {xs : List Segment} (filled : Contiguous start xs stop)
    {s : Segment} (member : s ∈ xs) : s.start.toNat + s.counter.toNat ≤ stop := by
  obtain ⟨before, after, rfl⟩ := List.append_of_mem member
  obtain ⟨middle, -, place, rest⟩ := contiguous_append.1 filled
  have length := rest.stop_eq
  omega

namespace SymbolTable

/-! ## The steps of the sizing pass -/

theorem findSegment?_isNone {t : SymbolTable} {name : String} :
    (t.findSegment? name).isSome = false ↔ name ∉ t.segments.map Segment.name := by
  simp [findSegment?, List.findIdx?_isSome]

theorem findLabel?_isNone {t : SymbolTable} {name scope : String} :
    (t.findLabel? name scope).isSome = false ↔ (name, scope) ∉ t.labels.map Label.key := by
  simp only [findLabel?, List.findIdx?_isSome, List.any_eq_false, List.mem_map, Label.key,
    Prod.mk.injEq, not_exists, not_and, Bool.and_eq_true, beq_iff_eq]

/-- A name means the same in tables with the same labels and the same current segment. -/
theorem resolve?_congr {t u : SymbolTable} (labels : u.labels = t.labels)
    (segment : u.currentSegment?.map Segment.name = t.currentSegment?.map Segment.name)
    (name : String) : u.resolve? name = t.resolve? name := by
  have near : ∀ v : SymbolTable, v.resolveLocal? name =
      (v.currentSegment?.map Segment.name).bind fun scope =>
        v.labels.find? fun l => l.name == name && l.segment == scope := by
    intro v
    rw [resolveLocal?, Option.bind_map]
    rfl
  rw [resolve?, resolve?, near, near, segment, labels]

theorem addSegment_ok {t u : SymbolTable} {name : String} (added : t.addSegment name = .ok u) :
    name ∉ t.segments.map Segment.name ∧
      u = { t with
        segments := t.segments ++ [⟨name, t.imageCounter, 0⟩]
        current := some t.segments.length } := by
  unfold addSegment at added
  split at added
  · cases added
  · rename_i fresh
    rw [Bool.not_eq_true] at fresh
    exact ⟨findSegment?_isNone.1 fresh, (Except.ok.inj added).symm⟩

theorem addLabel_ok {t u : SymbolTable} {name : String} (added : t.addLabel name = .ok u) :
    ∃ s, t.currentSegment? = some s ∧ (name, s.name) ∉ t.labels.map Label.key ∧
      u = { t with labels := t.labels ++ [⟨name, s.name, s.counter⟩] } := by
  unfold addLabel at added
  split at added
  · cases added
  · rename_i s current
    split at added
    · cases added
    · rename_i fresh
      rw [Bool.not_eq_true] at fresh
      exact ⟨s, current, findLabel?_isNone.1 fresh, (Except.ok.inj added).symm⟩

/-- Moving succeeds exactly when neither the segment nor the image leaves its range. -/
theorem advance_ok {t u : SymbolTable} {len : Nat} :
    t.advance len = .ok u ↔
      ∃ i s address, t.current = some i ∧ t.segments[i]? = some s ∧
        s.counter.toNat + len < 65536 ∧ addressAt t.imageCounter len = .ok address ∧
        u = { t with
          segments := t.segments.set i { s with counter := s.counter + UInt16.ofNat len }
          imageCounter := address } := by
  unfold advance currentSegment?
  cases current : t.current with
  | none => simp
  | some i =>
      simp only [Option.bind_some]
      cases found : t.segments[i]? with
      | none => simp [found]
      | some s =>
          simp only
          split
          · rename_i fits
            simp only [bind_eq_ok, pure, Except.pure, Except.ok.injEq]
            constructor
            · rintro ⟨address, moved, rfl⟩
              exact ⟨i, s, address, rfl, found, fits, moved, rfl⟩
            · rintro ⟨j, s', address, same, there, -, moved, rfl⟩
              cases same
              cases found.symm.trans there
              exact ⟨address, moved, rfl⟩
          · rename_i full
            simp only [reduceCtorEq, false_iff]
            rintro ⟨j, s', address, same, there, fits, -⟩
            cases same
            cases found.symm.trans there
            exact full fits

/-- Moving the counters moves that of the current segment. -/
theorem currentSegment?_advance {t u : SymbolTable} {len : Nat} (moved : t.advance len = .ok u) :
    ∃ s, t.currentSegment? = some s ∧
      u.currentSegment? = some { s with counter := s.counter + UInt16.ofNat len } := by
  obtain ⟨i, s, address, current, found, -, -, rfl⟩ := advance_ok.1 moved
  obtain ⟨inRange, rfl⟩ := List.getElem?_eq_some_iff.1 found
  exact ⟨t.segments[i], by simp [currentSegment?, current], by simp [currentSegment?, current, inRange]⟩

/-! ## What holds throughout -/

/-- A table as the sizing pass leaves it after any of its steps. -/
structure Sized (origin : Nat) (t : SymbolTable) : Prop where
  filled : Contiguous origin t.segments t.imageCounter.toNat
  /-- The current segment is the last one. -/
  last : t.segments.length = t.current.elim 0 (· + 1)
  segmentNames : (t.segments.map Segment.name).Nodup
  labelKeys : (t.labels.map Label.key).Nodup
  inside : ∀ l ∈ t.labels, ∃ s ∈ t.segments, s.name = l.segment ∧ l.offset ≤ s.counter

theorem sized_ofOrigin (origin : UInt32) : Sized origin.toNat (ofOrigin origin) where
  filled := rfl
  last := rfl
  segmentNames := List.nodup_nil
  labelKeys := List.nodup_nil
  inside := fun _ member => absurd member List.not_mem_nil

theorem currentSegment?_mem {t : SymbolTable} {s : Segment} (current : t.currentSegment? = some s) :
    s ∈ t.segments := by
  obtain ⟨i, -, found⟩ := Option.bind_eq_some_iff.1 current
  exact List.mem_of_getElem? found

/-- The segments before the current one are closed. -/
theorem Sized.closed_before {origin : Nat} {t : SymbolTable} (sized : Sized origin t) {i : Nat}
    {s : Segment} (current : t.current = some i) (found : t.segments[i]? = some s) :
    ∃ closed, t.segments = closed ++ [s] ∧ closed.length = i := by
  have length := sized.last
  rw [current] at length
  rcases List.eq_nil_or_concat t.segments with empty | ⟨closed, x, split⟩
  · simp [empty] at found
  · have place : closed.length = i := by simpa [split] using length
    refine ⟨closed, ?_, place⟩
    have same : x = s := by simpa [split, ← place] using found
    rw [split, same, List.concat_eq_append]

/-- The current segment ends where the image does. -/
theorem Sized.imageCounter_eq {origin : Nat} {t : SymbolTable} (sized : Sized origin t)
    {s : Segment} (current : t.currentSegment? = some s) :
    t.imageCounter.toNat = s.start.toNat + s.counter.toNat := by
  obtain ⟨i, isCurrent, found⟩ := Option.bind_eq_some_iff.1 current
  obtain ⟨closed, split, -⟩ := sized.closed_before isCurrent found
  have filled := sized.filled
  rw [split] at filled
  obtain ⟨middle, -, place, stop⟩ := contiguous_append.1 filled
  rw [place]
  exact stop.symm

theorem Sized.addSegment {origin : Nat} {t u : SymbolTable} {name : String} (sized : Sized origin t)
    (added : t.addSegment name = .ok u) : Sized origin u := by
  obtain ⟨fresh, rfl⟩ := addSegment_ok added
  refine ⟨?_, ?_, ?_, sized.labelKeys, ?_⟩
  · exact contiguous_append.2 ⟨_, sized.filled, rfl, Nat.add_zero _⟩
  · simp
  · simpa using List.Nodup.concat fresh sized.segmentNames
  · intro l member
    obtain ⟨s, known, name, inside⟩ := sized.inside l member
    exact ⟨s, List.mem_append_left _ known, name, inside⟩

theorem Sized.addLabel {origin : Nat} {t u : SymbolTable} {name : String} (sized : Sized origin t)
    (added : t.addLabel name = .ok u) : Sized origin u := by
  obtain ⟨s, current, fresh, rfl⟩ := addLabel_ok added
  refine ⟨sized.filled, sized.last, sized.segmentNames, ?_, ?_⟩
  · simpa [Label.key] using List.Nodup.concat fresh sized.labelKeys
  · intro l member
    rcases List.mem_append.1 member with old | new
    · exact sized.inside l old
    · cases List.mem_singleton.1 new
      exact ⟨s, currentSegment?_mem current, rfl, UInt16.le_refl _⟩

theorem counter_add {s : Segment} {len : Nat} (fits : s.counter.toNat + len < 65536) :
    (s.counter + UInt16.ofNat len).toNat = s.counter.toNat + len := by
  simp only [UInt16.toNat_add, UInt16.toNat_ofNat']
  omega

theorem Sized.advance {origin : Nat} {t u : SymbolTable} {len : Nat} (sized : Sized origin t)
    (moved : t.advance len = .ok u) : Sized origin u := by
  obtain ⟨i, s, address, current, found, fits, stop, rfl⟩ := advance_ok.1 moved
  obtain ⟨closed, split, place⟩ := sized.closed_before current found
  have grown := counter_add fits
  have segments : t.segments.set i { s with counter := s.counter + UInt16.ofNat len } =
      closed ++ [{ s with counter := s.counter + UInt16.ofNat len }] := by
    simp [split, ← place]
  refine ⟨?_, ?_, ?_, sized.labelKeys, ?_⟩
  · have filled := sized.filled
    rw [split] at filled
    obtain ⟨middle, before, start, reached⟩ := contiguous_append.1 filled
    have total : middle + s.counter.toNat = t.imageCounter.toNat := reached
    simp only [segments]
    refine contiguous_append.2 ⟨middle, before, start, ?_⟩
    show middle + (s.counter + UInt16.ofNat len).toNat = address.toNat
    rw [addressAt_ok.1 stop]
    omega
  · simpa using sized.last
  · have names := sized.segmentNames
    rw [segments]
    rw [split] at names
    simpa using names
  · intro l member
    obtain ⟨x, known, name, inside⟩ := sized.inside l member
    rw [split] at known
    simp only [segments]
    rcases List.mem_append.1 known with old | new
    · exact ⟨x, List.mem_append_left _ old, name, inside⟩
    · cases List.mem_singleton.1 new
      refine ⟨_, List.mem_append_right _ (List.mem_singleton_self _), name, ?_⟩
      rw [UInt16.le_iff_toNat_le] at inside ⊢
      show l.offset.toNat ≤ (s.counter + UInt16.ofNat len).toNat
      omega

/-! ## Later tables -/

/-- `later` has the segments and labels of `t` first; only counters may differ. -/
structure Extends (t later : SymbolTable) : Prop where
  segments : t.segments.map Segment.reset <+: later.segments.map Segment.reset
  labels : t.labels <+: later.labels

theorem Extends.refl (t : SymbolTable) : Extends t t := ⟨List.prefix_refl _, List.prefix_refl _⟩

theorem Extends.trans {t u v : SymbolTable} (first : Extends t u) (second : Extends u v) :
    Extends t v :=
  ⟨first.segments.trans second.segments, first.labels.trans second.labels⟩

/-- A segment keeps its name and its start. -/
theorem Extends.segment {t later : SymbolTable} (grown : t.Extends later) {s : Segment}
    (known : s ∈ t.segments) : ∃ seg ∈ later.segments, seg.name = s.name ∧ seg.start = s.start := by
  have early : s.reset ∈ later.segments.map Segment.reset :=
    grown.segments.subset (List.mem_map_of_mem known)
  obtain ⟨seg, there, same⟩ := List.mem_map.1 early
  have name : seg.reset.name = s.reset.name := congrArg Segment.name same
  have start : seg.reset.start = s.reset.start := congrArg Segment.start same
  exact ⟨seg, there, name, start⟩

theorem addSegment_extends {t u : SymbolTable} {name : String} (added : t.addSegment name = .ok u) :
    Extends t u := by
  obtain ⟨-, rfl⟩ := addSegment_ok added
  exact ⟨by simp, List.prefix_refl _⟩

theorem addLabel_extends {t u : SymbolTable} {name : String} (added : t.addLabel name = .ok u) :
    Extends t u := by
  obtain ⟨s, -, -, rfl⟩ := addLabel_ok added
  exact ⟨List.prefix_refl _, by simp⟩

theorem advance_extends {t u : SymbolTable} {len : Nat} (moved : t.advance len = .ok u) :
    Extends t u := by
  obtain ⟨i, s, address, -, found, -, -, rfl⟩ := advance_ok.1 moved
  -- Only the counter of segment `i` changes, and `reset` forgets it.
  have kept : (t.segments.set i { s with counter := s.counter + UInt16.ofNat len }).map
      Segment.reset = t.segments.map Segment.reset := map_set_of_eq found rfl
  exact ⟨kept.symm ▸ List.prefix_refl _, List.prefix_refl _⟩

/-! ## A whole pass -/

/-- `u` comes from `t` by steps of the sizing pass. -/
inductive Grows : SymbolTable → SymbolTable → Prop where
  | refl (t : SymbolTable) : Grows t t
  | addSegment {t u v : SymbolTable} {name : String} (added : t.addSegment name = .ok u)
      (rest : Grows u v) : Grows t v
  | addLabel {t u v : SymbolTable} {name : String} (added : t.addLabel name = .ok u)
      (rest : Grows u v) : Grows t v
  | advance {t u v : SymbolTable} {len : Nat} (moved : t.advance len = .ok u)
      (rest : Grows u v) : Grows t v

theorem Grows.trans {t u v : SymbolTable} (first : Grows t u) (second : Grows u v) : Grows t v := by
  induction first with
  | refl => exact second
  | addSegment added _ ih => exact .addSegment added (ih second)
  | addLabel added _ ih => exact .addLabel added (ih second)
  | advance moved _ ih => exact .advance moved (ih second)

theorem Grows.extends {t u : SymbolTable} (grows : Grows t u) : Extends t u := by
  induction grows with
  | refl t => exact .refl t
  | addSegment added _ ih => exact (addSegment_extends added).trans ih
  | addLabel added _ ih => exact (addLabel_extends added).trans ih
  | advance moved _ ih => exact (advance_extends moved).trans ih

theorem Grows.sized {origin : Nat} {t u : SymbolTable} (grows : Grows t u) (sized : Sized origin t) :
    Sized origin u := by
  induction grows with
  | refl => exact sized
  | addSegment added _ ih => exact ih (sized.addSegment added)
  | addLabel added _ ih => exact ih (sized.addLabel added)
  | advance moved _ ih => exact ih (sized.advance moved)

end SymbolTable

end Asm86.Symbols
