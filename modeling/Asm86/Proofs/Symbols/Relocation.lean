/-
# Asm86.Proofs.Symbols.Relocation -- the same table at another place

`Relocated o o' t u` says that `u` is the table `t` with every image address moved as `o` moves
to `o'`.  What a table finds does not depend on where it lies, except for the addresses that it
finds.  Each edit of `t` has its counterpart in `u`; only moving the counters needs room there.

`Fits` is the room that a table needs.  Segments only grow, so a table that fits after some
edits has fitted before them (`Edited.fits`).
-/
import Asm86.Proofs.Symbols.Consistent

namespace Asm86.Symbols

open Asm86.Checked

set_option autoImplicit false

variable {o o' : Nat}

/-! ## Room -/

namespace SymbolTable

/-- Every segment ends inside the image addresses, also when `o` moves to `o'`. -/
def Fits (o o' : Nat) (t : SymbolTable) : Prop :=
  ∀ s ∈ t.segments, s.start.toNat + s.counter.toNat + o' < 4294967296 + o

/-- A segment is still there after an edit, and at least as long. -/
theorem edit_grows {t u : SymbolTable} {e : Edit} (done : t.edit e = .ok u) {s : Segment}
    (known : s ∈ t.segments) :
    ∃ s' ∈ u.segments, s'.start = s.start ∧ s.counter.toNat ≤ s'.counter.toNat := by
  cases e with
  | addSegment name =>
      obtain ⟨-, rfl⟩ := addSegment_ok done
      exact ⟨s, List.mem_append_left _ known, rfl, Nat.le_refl _⟩
  | addLabel name =>
      obtain ⟨-, -, -, rfl⟩ := addLabel_ok done
      exact ⟨s, known, rfl, Nat.le_refl _⟩
  | enterSegment name =>
      obtain ⟨-, -, -, -, -, -, rfl⟩ := enterSegment_ok.1 done
      exact ⟨s, known, rfl, Nat.le_refl _⟩
  | advance len =>
      obtain ⟨i, x, address, -, found, fits, -, rfl⟩ := advance_ok.1 done
      obtain ⟨j, there⟩ := List.mem_iff_getElem?.1 known
      obtain ⟨inRange, -⟩ := List.getElem?_eq_some_iff.1 found
      by_cases same : i = j
      · subst same
        cases found.symm.trans there
        refine ⟨_, List.mem_of_getElem? (List.getElem?_set_self inRange), rfl, ?_⟩
        show s.counter.toNat ≤ (s.counter + UInt16.ofNat len).toNat
        have grown := counter_add fits
        omega
      · refine ⟨s, List.mem_of_getElem? (i := j) ?_, rfl, Nat.le_refl _⟩
        show (t.segments.set i _)[j]? = some s
        rw [List.getElem?_set_ne same, there]

theorem Edited.fits {t u : SymbolTable} (edited : Edited t u) (fits : u.Fits o o') :
    t.Fits o o' := by
  induction edited with
  | refl => exact fits
  | step e done _ ih =>
      intro s known
      obtain ⟨s', there, start, longer⟩ := edit_grows done known
      have bound := ih fits s' there
      rw [start] at bound
      omega

/-- The image counter of a table that fits has room as well. -/
theorem Consistent.image_fits {t : SymbolTable} (consistent : t.Consistent) (fits : t.Fits o o')
    {i : Nat} (current : t.current = some i) : t.imageCounter.toNat + o' < 4294967296 + o := by
  obtain ⟨s, there, stands⟩ := consistent.current i current
  have bound := fits s (List.mem_of_getElem? there)
  omega

end SymbolTable

/-! ## Tables -/

/-- An image address that moves as `o` moves to `o'`. -/
def Shifted (o o' : Nat) (x y : UInt32) : Prop := y.toNat + o = x.toNat + o'

/-- A segment that starts at another place. -/
structure Segment.Relocated (o o' : Nat) (s s' : Segment) : Prop where
  name : s'.name = s.name
  counter : s'.counter = s.counter
  start : Shifted o o' s.start s'.start

/-- A record with another address. -/
structure Symbol.Relocated (o o' : Nat) (r r' : Symbol) : Prop where
  same : r' = { r with address := r'.address }
  address : Shifted o o' r.address r'.address

namespace SymbolTable

structure Relocated (o o' : Nat) (t u : SymbolTable) : Prop where
  segments : List.Forall₂ (Segment.Relocated o o') t.segments u.segments
  labels : u.labels = t.labels
  current : u.current = t.current
  image : t.current.isSome → Shifted o o' t.imageCounter u.imageCounter

variable {t u : SymbolTable}

theorem Relocated.names (relocated : Relocated o o' t u) :
    u.segments.map Segment.name = t.segments.map Segment.name := by
  have related := relocated.segments
  generalize t.segments = xs at related ⊢
  generalize u.segments = ys at related ⊢
  induction related with
  | nil => rfl
  | cons first _ ih => rw [List.map_cons, List.map_cons, first.name, ih]

theorem Relocated.segment (relocated : Relocated o o' t u) (i : Nat) :
    Option.Rel (Segment.Relocated o o') t.segments[i]? u.segments[i]? :=
  getElem?_rel relocated.segments i

theorem Relocated.currentSegment? (relocated : Relocated o o' t u) :
    Option.Rel (Segment.Relocated o o') t.currentSegment? u.currentSegment? := by
  unfold SymbolTable.currentSegment?
  rw [relocated.current]
  cases t.current with
  | none => exact .none
  | some i => exact relocated.segment i

/-- No segment is current at either place, or the same one at both. -/
theorem Relocated.current_cases (relocated : Relocated o o' t u) :
    t.currentSegment? = none ∧ u.currentSegment? = none ∨
      ∃ s s', t.currentSegment? = some s ∧ u.currentSegment? = some s' ∧ s.Relocated o o' s' := by
  have related := relocated.currentSegment?
  generalize t.currentSegment? = x at related
  generalize u.currentSegment? = y at related
  cases related with
  | none => exact .inl ⟨rfl, rfl⟩
  | some moved => exact .inr ⟨_, _, rfl, rfl, moved⟩

theorem findSegment?_eq (t : SymbolTable) (name : String) :
    t.findSegment? name = (t.segments.map Segment.name).findIdx? (· == name) := by
  rw [List.findIdx?_map]
  rfl

theorem Relocated.findSegment? (relocated : Relocated o o' t u) (name : String) :
    u.findSegment? name = t.findSegment? name := by
  rw [findSegment?_eq, findSegment?_eq, relocated.names]

theorem Relocated.resolve? (relocated : Relocated o o' t u) (name : String) :
    u.resolve? name = t.resolve? name := by
  refine resolve?_congr relocated.labels ?_ name
  rcases relocated.current_cases with ⟨here, here'⟩ | ⟨s, s', here, here', moved⟩
  · rw [here, here']
  · rw [here, here', Option.map_some, Option.map_some, moved.name]

/-- The address of a label moves with its table. -/
theorem Relocated.addressOf? (relocated : Relocated o o' t u) (left : t.Consistent)
    (right : u.Consistent) {l : Label} (known : l ∈ t.labels) :
    ∃ x y, t.addressOf? l = .ok (some x) ∧ u.addressOf? l = .ok (some y) ∧ Shifted o o' x y := by
  obtain ⟨s, there, x, name, found, place⟩ := left.addressOf?_ok known
  obtain ⟨s', there', y, name', found', place'⟩ :=
    right.addressOf?_ok (relocated.labels.symm ▸ known)
  refine ⟨x, y, found, found', ?_⟩
  obtain ⟨x', known', moved⟩ := exists_of_mem_right relocated.segments there'
  have same : x' = s := List.inj_on_of_nodup_map left.segmentNames known' there
    (moved.name.symm.trans (name'.trans name.symm))
  subst same
  have start := moved.start
  unfold Shifted at start ⊢
  omega

/-! ## Edits -/

variable {t' : SymbolTable} {name : String}

theorem Relocated.addSegment (relocated : Relocated o o' t u)
    (image : Shifted o o' t.imageCounter u.imageCounter) (added : t.addSegment name = .ok t') :
    ∃ u', u.addSegment name = .ok u' ∧ Relocated o o' t' u' ∧
      Shifted o o' t'.imageCounter u'.imageCounter := by
  obtain ⟨fresh, rfl⟩ := addSegment_ok added
  have missed : (u.findSegment? name).isSome = false :=
    findSegment?_isNone.2 (relocated.names.symm ▸ fresh)
  refine ⟨{ u with
    segments := u.segments ++ [⟨name, u.imageCounter, 0⟩]
    current := some u.segments.length }, ?_, ⟨?_, relocated.labels, ?_, ?_⟩, image⟩
  · simp [SymbolTable.addSegment, missed]
  · exact List.rel_append relocated.segments (.cons ⟨rfl, rfl, image⟩ .nil)
  · exact congrArg some relocated.segments.length_eq.symm
  · exact fun _ => image

theorem Relocated.addLabel (relocated : Relocated o o' t u) (added : t.addLabel name = .ok t') :
    ∃ u', u.addLabel name = .ok u' ∧ Relocated o o' t' u' ∧
      t'.imageCounter = t.imageCounter ∧ u'.imageCounter = u.imageCounter := by
  obtain ⟨s, current, fresh, rfl⟩ := addLabel_ok added
  have related := relocated.currentSegment?
  rw [current] at related
  obtain ⟨s', there, moved⟩ := exists_of_rel_some related
  have missed : (u.findLabel? name s.name).isSome = false :=
    findLabel?_isNone.2 (relocated.labels.symm ▸ fresh)
  refine ⟨{ u with labels := u.labels ++ [⟨name, s.name, s.counter⟩] }, ?_, ?_, rfl, rfl⟩
  · simp [SymbolTable.addLabel, there, moved.name, moved.counter, missed]
  · refine ⟨relocated.segments, ?_, relocated.current, relocated.image⟩
    simp only [relocated.labels]

theorem Relocated.enterSegment (relocated : Relocated o o' t u) (right : u.Consistent)
    (entered : t.enterSegment name = .ok t') :
    ∃ u', u.enterSegment name = .ok u' ∧ Relocated o o' t' u' := by
  obtain ⟨i, s, x, found, there, reached, rfl⟩ := enterSegment_ok.1 entered
  have related := relocated.segment i
  rw [there] at related
  obtain ⟨s', there', moved⟩ := exists_of_rel_some related
  obtain ⟨y, reached', place'⟩ :=
    addressAt_fits (right.segmentEnds s' (List.mem_of_getElem? there'))
  refine ⟨_, enterSegment_ok.2 ⟨i, s', y, (relocated.findSegment? name).trans found, there',
    reached', rfl⟩, relocated.segments, relocated.labels, rfl, fun _ => ?_⟩
  have start := moved.start
  have place := addressAt_ok.1 reached
  have counter := congrArg UInt16.toNat moved.counter
  show y.toNat + o = x.toNat + o'
  unfold Shifted at start
  omega

theorem Relocated.advance {len : Nat} (relocated : Relocated o o' t u) (left : t.Consistent)
    (moved : t.advance len = .ok t') (room : t'.Fits o o') :
    ∃ u', u.advance len = .ok u' ∧ Relocated o o' t' u' ∧
      Shifted o o' t'.imageCounter u'.imageCounter := by
  have left' := left.advance moved
  obtain ⟨i, s, x, current, there, fits, stop, rfl⟩ := advance_ok.1 moved
  have image := relocated.image (by rw [current]; rfl)
  have place := addressAt_ok.1 stop
  -- The image counter after the move is the end of the current segment, which has room.
  have room : x.toNat + o' < 4294967296 + o := left'.image_fits room current
  unfold Shifted at image
  have inside : u.imageCounter.toNat + len < 4294967296 := by omega
  obtain ⟨y, reached, place'⟩ := addressAt_fits inside
  have shifted : Shifted o o' x y := by
    unfold Shifted
    omega
  have related := relocated.segment i
  rw [there] at related
  obtain ⟨s', there', same⟩ := exists_of_rel_some related
  refine ⟨_, advance_ok.2 ⟨i, s', y, relocated.current.trans current, there', ?_, reached, rfl⟩,
    ⟨?_, relocated.labels, relocated.current, fun _ => shifted⟩, shifted⟩
  · rw [same.counter]
    exact fits
  · refine forall₂_set relocated.segments i ⟨same.name, ?_, same.start⟩
    show s'.counter + _ = s.counter + _
    rw [same.counter]

/-! ## Handing over -/

theorem Relocated.rebuilt (relocated : Relocated o o' t u) :
    Relocated o o' (ofParts (t.segments.map Segment.reset) t.labels)
      (ofParts (u.segments.map Segment.reset) u.labels) where
  segments := List.rel_map (fun _ _ moved => ⟨moved.name, rfl, moved.start⟩) relocated.segments
  labels := relocated.labels
  current := rfl
  image := fun impossible => nomatch impossible

/-- The records of the snapshots differ in their addresses only. -/
theorem Relocated.freeze (relocated : Relocated o o' t u) (left : t.Consistent)
    (right : u.Consistent) {s s' : Snapshot} (frozen : t.freeze = .ok s)
    (frozen' : u.freeze = .ok s') : List.Forall₂ (Symbol.Relocated o o') s s' := by
  obtain ⟨records, recorded, rfl⟩ := SymbolTable.freeze_ok.1 frozen
  obtain ⟨records', recorded', rfl⟩ := SymbolTable.freeze_ok.1 frozen'
  refine List.rel_append ?_ ?_
  · exact List.rel_map (fun s s' moved => ⟨by simp [Segment.symbol, moved.name, moved.counter],
      moved.start⟩) relocated.segments
  · rw [relocated.labels] at recorded'
    refine forall₂_join recorded recorded' fun l known r r' record record' => ?_
    obtain ⟨x, y, found, found', shifted⟩ := relocated.addressOf? left right known
    cases labelSymbol_ok.2 ⟨_, found, rfl⟩ |>.symm.trans record
    cases labelSymbol_ok.2 ⟨_, found', rfl⟩ |>.symm.trans record'
    exact ⟨rfl, shifted⟩

end SymbolTable

theorem Snapshot.WellNamed.relocated {s s' : Snapshot} (named : s.WellNamed)
    (moved : List.Forall₂ (Symbol.Relocated o o') s s') : s'.WellNamed := by
  intro r' member
  obtain ⟨r, known, same⟩ := exists_of_mem_right moved member
  rw [same.same]
  exact named r known

end Asm86.Symbols
