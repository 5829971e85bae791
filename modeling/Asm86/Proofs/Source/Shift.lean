/-
# Asm86.Proofs.Source.Shift -- sums that differ in one constant

Two readings are `Carried` along a relation when both succeed with related results or both fail.
One of them alone may fail only because its constant leaves the 64 bits of a constant.

A sum that starts `k` higher than another ends `k` higher (`Expr.addTerm_shifted`,
`MemoryRef.addTerm_shifted`), whatever the terms are.
-/
import Asm86.Proofs.Checked
import Asm86.Proofs.Source.Sums

namespace Asm86.Source

open Asm86.Text
open Asm86.Machine

set_option autoImplicit false

/-- Both readings succeed with related results, or both fail, or one of them overflows. -/
inductive Carried {α : Type} (R : α → α → Prop) :
    Except ParseError α → Except ParseError α → Prop where
  | both {a b : α} (related : R a b) : Carried R (.ok a) (.ok b)
  | neither (e e' : ParseError) : Carried R (.error e) (.error e')
  | left (a : α) (term : String) : Carried R (.ok a) (.error (.constantOverflow term))
  | right (term : String) (b : α) : Carried R (.error (.constantOverflow term)) (.ok b)

namespace Carried

variable {α β : Type} {R : α → α → Prop} {S : β → β → Prop} {x y : Except ParseError α}

theorem bind {f g : α → Except ParseError β} (carried : Carried R x y)
    (next : ∀ a b, R a b → Carried S (f a) (g b)) : Carried S (x >>= f) (y >>= g) := by
  cases carried with
  | both related => exact next _ _ related
  | neither e e' => exact .neither e e'
  | left a term =>
      change Carried S (f a) (.error (.constantOverflow term))
      cases f a with
      | error e => exact .neither e _
      | ok b => exact .left b term
  | right term a =>
      change Carried S (.error (.constantOverflow term)) (g a)
      cases g a with
      | error e => exact .neither _ e
      | ok b => exact .right term b

theorem map {f g : α → β} (carried : Carried R x y) (next : ∀ a b, R a b → S (f a) (g b)) :
    Carried S (x.map f) (y.map g) := by
  cases carried with
  | both related => exact .both (next _ _ related)
  | neither e e' => exact .neither e e'
  | left a term => exact .left (f a) term
  | right term b => exact .right term (g b)

/-- What every step keeps, a fold keeps. -/
theorem foldlM {step : α → Term → Except ParseError α}
    (kept : ∀ a b t, R a b → Carried R (step a t) (step b t)) (terms : List Term) {a b : α}
    (related : R a b) : Carried R (terms.foldlM step a) (terms.foldlM step b) := by
  induction terms generalizing a b with
  | nil => exact .both related
  | cons t terms ih =>
      rw [List.foldlM_cons, List.foldlM_cons]
      exact (kept a b t related).bind fun _ _ next => ih next

end Carried

/-! ## Shifts -/

/-- The same expression with `k` added to its constant. -/
def Expr.Shifted (k : Int) (e e' : Expr) : Prop := e' = { e with value := e.value + k }

/-- The same reference with `k` added to its displacement. -/
def MemoryRef.Shifted (k : Int) (m m' : MemoryRef) : Prop :=
  m' = { m with disp := { m.disp with value := m.disp.value + k } }

/-- The same kind of operand with `k` added to one of its constants. -/
inductive Operand.Shifted (k : Int) : Operand → Operand → Prop where
  | imm {e e' : Expr} (shifted : e.Shifted k e') : Shifted k (.imm e) (.imm e')
  | mem {m m' : MemoryRef} (shifted : m.Shifted k m') : Shifted k (.mem m) (.mem m')
  | segment {e e' : Expr} (shifted : e.Shifted k e') (offset : Expr) :
      Shifted k (.far e offset) (.far e' offset)
  | offset (segment : Expr) {e e' : Expr} (shifted : e.Shifted k e') :
      Shifted k (.far segment e) (.far segment e')

namespace Carried

variable {k : Int} {x y : Except ParseError Expr}

theorem far_segment (carried : Carried (Expr.Shifted k) x y) (z : Except ParseError Expr) :
    Carried (Operand.Shifted k) (do let segment ← x; let offset ← z; return .far segment offset)
      (do let segment ← y; let offset ← z; return .far segment offset) := by
  refine carried.bind fun e e' shifted => ?_
  cases z with
  | error error => exact .neither error error
  | ok offset => exact .both (.segment shifted offset)

theorem far_offset (carried : Carried (Expr.Shifted k) x y) (z : Except ParseError Expr) :
    Carried (Operand.Shifted k) (do let segment ← z; let offset ← x; return .far segment offset)
      (do let segment ← z; let offset ← y; return .far segment offset) := by
  cases z with
  | error error => exact .neither error error
  | ok segment => exact carried.bind fun e e' shifted => .both (.offset segment shifted)

end Carried

/-- An expression whose constant becomes `v`, if that is inside its range. -/
def Expr.settle (e : Expr) (v : Int) (term : String) : Except ParseError Expr :=
  match Range.checked64 v with
  | some value => .ok { e with value }
  | none => .error (.constantOverflow term)

theorem Expr.settle_shifted {v w k : Int} (apart : w = v + k) (e : Expr) (s t : String) :
    Carried (Expr.Shifted k) (e.settle v s) (e.settle w t) := by
  unfold settle
  cases first : Range.checked64 v with
  | none =>
      cases second : Range.checked64 w with
      | none => exact .neither _ _
      | some w' => exact .right _ _
  | some v' =>
      cases second : Range.checked64 w with
      | none => exact .left _ _
      | some w' =>
          obtain rfl := (Range.checked64_some.1 first).2
          obtain rfl := (Range.checked64_some.1 second).2
          exact .both (by rw [Expr.Shifted, apart])

theorem Expr.addTerm_literal {t : Term} {v w : Int} (read : literal? t.text = some v)
    (inside : Range.checked64 (if t.negative then -v else v) = some w) (e : Expr) :
    e.addTerm t = e.settle (e.value + w) (String.ofList t.text) := by
  cases total : Range.checked64 (e.value + w) <;>
    simp only [Expr.addTerm, read, inside, Option.bind_some, settle, total]

theorem Expr.addTerm_shifted {k : Int} (e e' : Expr) (t : Term) (shifted : e.Shifted k e') :
    Carried (Expr.Shifted k) (e.addTerm t) (e'.addTerm t) := by
  subst shifted
  cases read : literal? t.text with
  | none =>
      simp only [Expr.addTerm, read]
      split
      · exact .both rfl
      · exact .neither _ _
  | some v =>
      cases inside : Range.checked64 (if t.negative then -v else v) with
      | none =>
          simp only [Expr.addTerm, read, inside, Option.bind_none]
          exact .neither _ _
      | some w =>
          rw [addTerm_literal read inside, addTerm_literal read inside]
          exact settle_shifted (Int.add_right_comm _ _ _) e _ _

theorem MemoryRef.addRegister_shifted {k : Int} {m m' : MemoryRef} (shifted : m.Shifted k m')
    (r : Register) : Carried (MemoryRef.Shifted k) (m.addRegister r) (m'.addRegister r) := by
  subst shifted
  simp only [addRegister, addBase, addIndex]
  repeat' split
  all_goals first | exact .both rfl | exact .neither _ _

theorem MemoryRef.addTerm_shifted {k : Int} (m m' : MemoryRef) (t : Term)
    (shifted : m.Shifted k m') :
    Carried (MemoryRef.Shifted k) (m.addTerm t) (m'.addTerm t) := by
  cases named : Register.ofName? t.text with
  | none =>
      rw [addTerm_disp named, addTerm_disp named]
      subst shifted
      refine (Expr.addTerm_shifted m.disp _ t rfl).map fun disp disp' shifted => ?_
      rw [MemoryRef.Shifted, shifted]
  | some r =>
      simp only [addTerm, named]
      split
      · exact .neither _ _
      · exact addRegister_shifted shifted r

end Asm86.Source
