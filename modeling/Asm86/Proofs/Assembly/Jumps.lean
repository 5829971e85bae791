/-
# Asm86.Proofs.Assembly.Jumps -- values and jumps at another place

A value never looks at an image address.  A jump looks at two, that of its target and that of
the next instruction, and when a table is relocated both move alike, so that the distance stays
(`Scope.Relocated.distance`).  The one thing that could differ is whether the sum of an address
and a number still fits 64 bits.  It does for every number that is itself `Bounded`, and a jump
that the encoding phase accepts goes to no other (`Scope.bounded_of_single`).
-/
import Asm86.Proofs.Assembly.Values
import Asm86.Proofs.Symbols.Relocation

namespace Asm86.Assembly

open Asm86.Checked
open Asm86.Machine
open Asm86.Encoding
open Asm86.Source
open Asm86.Symbols

set_option autoImplicit false

variable {o o' : Nat}

/-- A number that stays inside 64 bits when an image address is added to it. -/
def Bounded (e : Expr) : Prop := -4611686018427387904 ≤ e.value ∧ e.value ≤ 4611686018427387904

namespace Scope

/-! ## Values -/

/-- The same phase over a table at another place. -/
structure Relocated (o o' : Nat) (s s' : Scope) : Prop where
  table : s.symbols.Relocated o o' s'.symbols
  phase : s'.phase = s.phase
  left : s.symbols.Consistent
  right : s'.symbols.Consistent

variable {s s' : Scope}

theorem Relocated.value (relocated : Relocated o o' s s') (e : Expr) : s'.value e = s.value e := by
  unfold Scope.value
  simp only [relocated.table.resolve?, relocated.phase]

theorem Relocated.immediate (relocated : Relocated o o' s s') (e : Expr) :
    s'.immediate e = s.immediate e := by
  simp only [Scope.immediate, relocated.value]

theorem Relocated.dataValue (relocated : Relocated o o' s s') (width : Width) (e : Expr) :
    s'.dataValue width e = s.dataValue width e := by
  simp only [Scope.dataValue, relocated.value]

theorem Relocated.checkRoom (relocated : Relocated o o' s s') (len : Nat) :
    s'.checkRoom len = s.checkRoom len := by
  unfold Scope.checkRoom
  rcases relocated.table.current_cases with ⟨here, here'⟩ | ⟨_, _, here, here', moved⟩
  · simp only [here, here']
  · simp only [here, here', moved.name, moved.counter]

theorem Relocated.dataFrom (relocated : Relocated o o' s s') (width : Width) (before : Nat)
    (items : List DataItem) : s'.dataFrom width before items = s.dataFrom width before items := by
  have one : ∀ before item, s'.dataItem width before item = s.dataItem width before item := by
    intro before item
    cases item with
    | string bytes => rfl
    | value e => exact relocated.dataValue width e
    | dup count e => simp only [Scope.dataItem, relocated.checkRoom, relocated.dataValue]
  induction items generalizing before with
  | nil => rfl
  | cons item rest ih => simp only [Scope.dataFrom, one, ih]

/-! ## Jumps -/

/-- The address that a jump counts from is not known at either place, or moves. -/
theorem Relocated.branchBase (relocated : Relocated o o' s s') {e : Expr} {base : Option UInt32}
    (found : s.branchBase e = .ok base) :
    ∃ base', s'.branchBase e = .ok base' ∧ Option.Rel (Shifted o o') base base' := by
  cases named : e.symbol with
  | none =>
      simp only [Scope.branchBase, named] at found ⊢
      cases found
      refine ⟨_, rfl, ?_⟩
      rcases relocated.table.current_cases with ⟨here, here'⟩ | ⟨_, _, here, here', moved⟩
      · rw [here, here']
        exact .none
      · rw [here, here']
        exact .some moved.start
  | some name =>
      simp only [Scope.branchBase, named, relocated.table.resolve?, relocated.phase] at found ⊢
      cases resolved : s.symbols.resolve? name with
      | some l =>
          obtain ⟨x, y, place, place', shifted⟩ :=
            relocated.table.addressOf? relocated.left relocated.right (resolve?_mem resolved)
          simp only [resolved, place, place', Except.mapError] at found ⊢
          cases found
          exact ⟨some y, rfl, .some shifted⟩
      | none =>
          cases phase : s.phase with
          | sizing =>
              simp only [resolved, phase] at found ⊢
              cases found
              exact ⟨none, rfl, .none⟩
          | encoding => simp [resolved, phase] at found

/-- A jump inside a segment goes as far at either place. -/
theorem Relocated.distance (relocated : Relocated o o' s s') {e : Expr} (bounded : Bounded e)
    {seg : Segment} (current : s.symbols.currentSegment? = some seg) {len : Nat} {d : Int}
    (measured : s.distance e len = .ok d) : s'.distance e len = .ok d := by
  obtain ⟨here, stands, base, found, sum⟩ := distance_ok.1 measured
  obtain ⟨base', found', related⟩ := relocated.branchBase found
  obtain ⟨seg', current', -⟩ :=
    exists_of_rel_some (current ▸ relocated.table.currentSegment?)
  rw [relocated.left.here?_eq, current] at stands
  cases stands
  refine distance_ok.2 ⟨_, relocated.right.here?_eq, base', found', ?_⟩
  cases related with
  | none => exact sum
  | some shifted =>
      rename_i x y
      obtain ⟨-, inRange, total⟩ := sum
      obtain ⟨i, isCurrent, -⟩ := Option.bind_eq_some_iff.1 current
      -- Both addresses move by `o' - o`; only their sum with the number needs its bound.
      have image := relocated.table.image (by rw [isCurrent]; rfl)
      have below := y.toNat_lt
      unfold Shifted at shifted image
      unfold Bounded at bounded
      simp only [current', Option.map_some, Option.getD_some, Option.elim_some] at total ⊢
      refine ⟨?_, inRange, ?_⟩
      · simp only [Range.signed64, Bool.and_eq_true, decide_eq_true_eq]
        omega
      · omega

theorem Relocated.single (relocated : Relocated o o' s s') {op : Operation} {e : Expr}
    (bounded : op.isRelative = true → Bounded e) {seg : Segment}
    (current : s.symbols.currentSegment? = some seg) {i : Immediate}
    (lone : s.single op e = .ok i) : s'.single op e = .ok i := by
  cases relative : op.isRelative with
  | false =>
      rw [single_eq_immediate relative] at lone ⊢
      rw [relocated.immediate, lone]
  | true =>
      have far := bounded relative
      cases group : op.group with
      | short _ | near _ _ =>
          simp only [Scope.single, group] at lone ⊢
          obtain ⟨d, measured, lone⟩ := bind_eq_ok.1 lone
          refine bind_eq_ok.2 ⟨d, relocated.distance far current measured, ?_⟩
          rw [relocated.phase]
          exact lone
      | _ => simp [Operation.isRelative, group] at relative

/-- Operands become the same at either place. -/
theorem Relocated.operands (relocated : Relocated o o' s s') {op : Operation}
    {sources : List Operand}
    (bounded : ∀ e, sources = [.imm e] → op.isRelative = true → Bounded e) {seg : Segment}
    (current : s.symbols.currentSegment? = some seg) {machine : Operands}
    (resolved : s.operands op sources = .ok machine) : s'.operands op sources = .ok machine := by
  rw [← resolved]
  refine operands_congr relocated.value fun e lone => ?_
  subst lone
  obtain ⟨i, found, -⟩ := map_eq_ok.1 resolved
  rw [found]
  exact relocated.single (bounded e rfl) current found

/-! ## Jumps that were encoded -/

/-- In the encoding phase the target of a jump inside a segment is known. -/
theorem branchBase_known (encoding : s.phase = .encoding) (consistent : s.symbols.Consistent)
    {seg : Segment} (current : s.symbols.currentSegment? = some seg) {e : Expr}
    {base : Option UInt32} (found : s.branchBase e = .ok base) : ∃ address, base = some address := by
  cases named : e.symbol with
  | none =>
      simp only [branchBase, named, current] at found
      cases found
      exact ⟨_, rfl⟩
  | some name =>
      cases resolved : s.symbols.resolve? name with
      | none => simp [branchBase, named, resolved, encoding] at found
      | some l =>
          obtain ⟨-, -, address, -, place, -⟩ := consistent.addressOf?_ok (resolve?_mem resolved)
          simp only [branchBase, named, resolved, place, Except.mapError] at found
          cases found
          exact ⟨_, rfl⟩

/-- A distance that fits a word comes from a number that an address cannot push out of range. -/
theorem bounded_of_distance {e : Expr} {address : UInt32}
    (found : s.branchBase e = .ok (some address)) {len : Nat} {d : Int}
    (measured : s.distance e len = .ok d) (short : len ≤ 3) (near : Range.signed16 d = true) :
    Bounded e := by
  obtain ⟨here, -, base, same, sum⟩ := distance_ok.1 measured
  rw [found] at same
  cases same
  obtain ⟨-, -, total⟩ := sum
  have below := address.toNat_lt
  have below' := (here.getD 0).toNat_lt
  simp only [Range.signed16, Bool.and_eq_true, decide_eq_true_eq] at near
  unfold Bounded
  omega

theorem bounded_of_known (encoding : s.phase = .encoding) {e : Expr} {address : UInt32}
    (found : s.branchBase e = .ok (some address)) {op : Operation} {i : Immediate}
    (lone : s.single op e = .ok i) (relative : op.isRelative = true) : Bounded e := by
  cases group : op.group with
  | short opcode =>
      simp only [single, group] at lone
      obtain ⟨d, measured, lone⟩ := bind_eq_ok.1 lone
      split at lone
      · rename_i inRange
        refine bounded_of_distance found measured (by decide) ?_
        simp only [Range.signed8, Range.signed16, Bool.and_eq_true, decide_eq_true_eq] at inRange ⊢
        omega
      · simp [encoding] at lone
  | near opcode ext =>
      simp only [single, group] at lone
      obtain ⟨d, measured, lone⟩ := bind_eq_ok.1 lone
      split at lone
      · rename_i inRange
        refine bounded_of_distance found measured (by decide) ?_
        simpa [encoding] using inRange
      · cases lone
  | _ => simp [Operation.isRelative, group] at relative

/-- A jump measures a distance from some base. -/
theorem branchBase_of_single {op : Operation} {e : Expr} {i : Immediate}
    (lone : s.single op e = .ok i) (relative : op.isRelative = true) :
    ∃ base, s.branchBase e = .ok base := by
  have measured : ∃ len d, s.distance e len = .ok d := by
    cases group : op.group with
    | short _ | near _ _ =>
        simp only [single, group] at lone
        obtain ⟨d, measured, -⟩ := bind_eq_ok.1 lone
        exact ⟨_, d, measured⟩
    | _ => simp [Operation.isRelative, group] at relative
  obtain ⟨len, d, measured⟩ := measured
  obtain ⟨-, -, base, found, -⟩ := distance_ok.1 measured
  exact ⟨base, found⟩

theorem bounded_of_single (encoding : s.phase = .encoding) (consistent : s.symbols.Consistent)
    {seg : Segment} (current : s.symbols.currentSegment? = some seg) {op : Operation} {e : Expr}
    {i : Immediate} (lone : s.single op e = .ok i) (relative : op.isRelative = true) : Bounded e := by
  obtain ⟨base, found⟩ := branchBase_of_single lone relative
  obtain ⟨address, rfl⟩ := branchBase_known encoding consistent current found
  exact bounded_of_known encoding found lone relative

end Scope

end Asm86.Assembly
