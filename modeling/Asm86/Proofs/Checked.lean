/-
# Asm86.Proofs.Checked -- taking computations that may fail apart

A sequence of steps succeeds exactly when every step does; these equivalences peel off
one step at a time.
-/
import Mathlib.Data.List.Forall2
import Asm86.Range

namespace Asm86.Checked

set_option autoImplicit false

variable {ε ε' α β : Type}

theorem bind_eq_ok {x : Except ε α} {f : α → Except ε β} {b : β} :
    x >>= f = .ok b ↔ ∃ a, x = .ok a ∧ f a = .ok b := by
  cases x <;> simp [bind, Except.bind]

theorem bind_eq_error {x : Except ε α} {f : α → Except ε β} {e : ε} :
    x >>= f = .error e ↔ x = .error e ∨ ∃ a, x = .ok a ∧ f a = .error e := by
  cases x <;> simp [bind, Except.bind]

/-- Continuations matter only where the first step leads. -/
theorem bind_congr_ok {x : Except ε α} {f g : α → Except ε β} (same : ∀ a, x = .ok a → f a = g a) :
    x >>= f = x >>= g := by
  cases x with
  | error e => rfl
  | ok a => exact same a rfl

/-- What is looked at of two results may be looked at behind a first step that they share. -/
theorem map_bind_congr {γ : Type} {x : Except ε α} {f g : α → Except ε β} {shown shown' : β → γ}
    (same : ∀ a, (f a).map shown = (g a).map shown') :
    (x >>= f).map shown = (x >>= g).map shown' := by
  cases x with
  | error e => rfl
  | ok a => exact same a

theorem map_eq_ok {x : Except ε α} {f : α → β} {b : β} :
    x.map f = .ok b ↔ ∃ a, x = .ok a ∧ f a = b := by
  cases x <;> simp [Except.map]

theorem map_eq_error {x : Except ε α} {f : α → β} {e : ε} : x.map f = .error e ↔ x = .error e := by
  cases x <;> simp [Except.map]

theorem mapError_eq_ok {x : Except ε α} {f : ε → ε'} {a : α} :
    x.mapError f = .ok a ↔ x = .ok a := by
  cases x <;> simp [Except.mapError]

theorem mapError_eq_error {x : Except ε α} {f : ε → ε'} {e : ε'} :
    x.mapError f = .error e ↔ ∃ inner, x = .error inner ∧ f inner = e := by
  cases x <;> simp [Except.mapError]

theorem mapM_eq_ok {f : α → Except ε β} {xs : List α} {ys : List β} :
    xs.mapM f = .ok ys ↔ List.Forall₂ (fun x y => f x = .ok y) xs ys := by
  induction xs generalizing ys with
  | nil => simp [pure, Except.pure, eq_comm]
  | cons x xs ih =>
      simp only [List.mapM_cons, bind_eq_ok, pure, Except.pure, ih, List.forall₂_cons_left_iff,
        Except.ok.injEq]
      constructor
      · rintro ⟨y, first, rest, others, rfl⟩
        exact ⟨y, rest, first, others, rfl⟩
      · rintro ⟨y, rest, first, others, rfl⟩
        exact ⟨y, first, rest, others, rfl⟩

instance decidableEqResult {ε σ α : Type} [DecidableEq ε] [DecidableEq σ] [DecidableEq α] :
    DecidableEq (EStateM.Result ε σ α)
  | .ok a s, .ok b t => decidable_of_iff (a = b ∧ s = t) (by simp)
  | .error e s, .error f t => decidable_of_iff (e = f ∧ s = t) (by simp)
  | .ok .., .error .. => isFalse nofun
  | .error .., .ok .. => isFalse nofun

/-- Every result comes from some member. -/
theorem exists_of_mem_right {R : α → β → Prop} {xs : List α} {ys : List β}
    (related : List.Forall₂ R xs ys) {y : β} (member : y ∈ ys) : ∃ x ∈ xs, R x y := by
  induction related with
  | nil => exact absurd member List.not_mem_nil
  | cons first _ ih =>
      rcases List.mem_cons.1 member with rfl | later
      · exact ⟨_, List.mem_cons_self .., first⟩
      · obtain ⟨x, found, holds⟩ := ih later
        exact ⟨x, List.mem_cons_of_mem _ found, holds⟩

theorem exists_of_rel_some {R : α → β → Prop} {x : α} {y : Option β}
    (related : Option.Rel R (some x) y) : ∃ z, y = some z ∧ R x z := by
  cases related with
  | some holds => exact ⟨_, rfl, holds⟩

theorem getElem?_rel {R : α → β → Prop} {xs : List α} {ys : List β} (related : List.Forall₂ R xs ys)
    (i : Nat) : Option.Rel R xs[i]? ys[i]? := by
  induction related generalizing i with
  | nil => exact .none
  | cons first _ ih =>
      cases i with
      | zero => exact .some first
      | succ i => exact ih i

theorem forall₂_set {R : α → β → Prop} {xs : List α} {ys : List β} (related : List.Forall₂ R xs ys)
    (i : Nat) {x : α} {y : β} (new : R x y) : List.Forall₂ R (xs.set i x) (ys.set i y) := by
  induction related generalizing i with
  | nil => exact .nil
  | cons first rest ih =>
      cases i with
      | zero => exact .cons new rest
      | succ i => exact .cons first (ih i)

/-- Two lists that are made from the same list, member by member. -/
theorem forall₂_join {γ : Type} {R : α → β → Prop} {S : α → γ → Prop} {T : β → γ → Prop}
    {xs : List α} {ys : List β} {zs : List γ} (left : List.Forall₂ R xs ys)
    (right : List.Forall₂ S xs zs) (joined : ∀ x ∈ xs, ∀ y z, R x y → S x z → T y z) :
    List.Forall₂ T ys zs := by
  induction left generalizing zs with
  | nil =>
      cases right
      exact .nil
  | @cons x y xs ys first _ ih =>
      cases right with
      | cons first' rest' =>
          obtain ⟨here, later⟩ := List.forall_mem_cons.1 joined
          exact .cons (here _ _ first first') (ih rest' later)

/-- Searching related lists for related things gives related results. -/
theorem find?_rel {R : α → β → Prop} {xs : List α} {ys : List β} (related : List.Forall₂ R xs ys)
    {p : α → Bool} {q : β → Bool} (same : ∀ x y, R x y → p x = q y) :
    Option.Rel R (xs.find? p) (ys.find? q) := by
  induction related with
  | nil => exact .none
  | @cons x y xs ys first _ ih =>
      rw [List.find?_cons, List.find?_cons, ← same x y first]
      cases p x with
      | true => exact .some first
      | false => exact ih

theorem or_rel {R : α → β → Prop} {x x' : Option α} {y y' : Option β} (first : Option.Rel R x y)
    (second : Option.Rel R x' y') : Option.Rel R (x.or x') (y.or y') := by
  cases first with
  | none => exact second
  | some holds => exact .some holds

end Asm86.Checked

namespace Asm86.Range

theorem checked64_some {v w : Int} : checked64 v = some w ↔ signed64 v = true ∧ w = v := by
  unfold checked64
  split
  · rename_i inside
    exact ⟨fun same => ⟨inside, (Option.some.inj same).symm⟩, fun same => congrArg some same.2.symm⟩
  · rename_i outside
    exact ⟨fun impossible => (nomatch impossible), fun same => absurd same.1 outside⟩

end Asm86.Range
