/-
# Asm86.Proofs.Encoding.Verdict -- which operands an operation takes

Whether operands are taken is said in two places: `Group.modes` lists the combinations, and
the rule of each group handles the ones it knows and refuses the rest.  The two agree.  A
combination outside the list is refused as such, and one on the list always comes to a case of
its own, which refuses it for its sizes (`SizeOnly`) or for one of the few operands that
`Misfit` names.

Nothing but a count of shifts is refused for its value.  The outline of operands is what the
checks look at: registers, segment registers and widths.  Outside shifts, operands with one
outline have one verdict (`planGroup_outline`).
-/
import Asm86.Encoding.Plan
import Asm86.Proofs.Checked

namespace Asm86.Machine

set_option autoImplicit false

def Memory.outline (m : Memory) : Memory := ⟨m.width, 0, 0, 0, false⟩

def Immediate.outline (i : Immediate) : Immediate := ⟨0, i.width, false⟩

/-- Operands with nothing left of their memory operands and immediates but the widths. -/
def Operands.outline : Operands → Operands
  | .mem m => .mem m.outline
  | .imm i => .imm i.outline
  | .regMem r m => .regMem r m.outline
  | .memReg m r => .memReg m.outline r
  | .regImm r i => .regImm r i.outline
  | .memImm m i => .memImm m.outline i.outline
  | .sregMem s m => .sregMem s m.outline
  | .memSreg m s => .memSreg m.outline s
  | .immImm segment offset => .immImm segment.outline offset.outline
  | other => other

@[simp] theorem Memory.outline_width (m : Memory) : m.outline.width = m.width := rfl

@[simp] theorem Immediate.outline_width (i : Immediate) : i.outline.width = i.width := rfl

@[simp] theorem Operands.outline_mode (o : Operands) : o.outline.mode = o.mode := by
  cases o <;> rfl

end Asm86.Machine

namespace Asm86.Encoding

open Asm86.Checked
open Asm86.Machine

set_option autoImplicit false

/-- Operands of a combination that a group takes, but for which it has no encoding. -/
inductive Misfit : Group → Operands → OperandFault → Prop where
  | popCs : Misfit .pop (.sreg .cs) .popCs
  | inputPort {w : Width} {r : Register} (other : r ≠ .dx) : Misfit (.input w) (.reg r) .addressNotDx
  | outputPort {w : Width} {r : Register} (other : r ≠ .dx) :
      Misfit (.output w) (.reg r) .addressNotDx
  | regCount {ext : UInt8} {r : Register} {i : Immediate} (other : i.symbolic = true ∨ i.value ≠ 1) :
      Misfit (.shift ext) (.regImm r i) .shiftCount
  | memCount {ext : UInt8} {m : Memory} {i : Immediate} (other : i.symbolic = true ∨ i.value ≠ 1) :
      Misfit (.shift ext) (.memImm m i) .shiftCount
  | regRegister {ext : UInt8} {r count : Register} (other : count ≠ .cl) :
      Misfit (.shift ext) (.regReg r count) .shiftRegister
  | memRegister {ext : UInt8} {m : Memory} {count : Register} (other : count ≠ .cl) :
      Misfit (.shift ext) (.memReg m count) .shiftRegister

/-! ## Checks of sizes -/

variable {α β : Type}

/-- A computation that fails for sizes or not at all. -/
def SizeOnly (x : Except EncodeError α) : Prop := ∀ e, x = .error e → e = .sizeMismatch

namespace SizeOnly

theorem pure (v : α) : SizeOnly (Pure.pure v) := by
  intro e failed
  cases failed

theorem bind {x : Except EncodeError α} {f : α → Except EncodeError β} (first : SizeOnly x)
    (later : ∀ a, SizeOnly (f a)) : SizeOnly (x >>= f) := by
  intro e failed
  cases x with
  | error e' =>
      cases failed
      exact first _ rfl
  | ok a => exact later a e failed

theorem ite {c : Prop} [Decidable c] {x y : Except EncodeError α} (left : SizeOnly x)
    (right : SizeOnly y) : SizeOnly (if c then x else y) := by
  split
  · exact left
  · exact right

theorem pairBit {a b : Width} : SizeOnly (pairBit a b) := by
  intro e failed
  unfold Encoding.pairBit at failed
  split at failed <;> cases failed
  rfl

theorem widthBit {a : Width} : SizeOnly (widthBit a) := SizeOnly.pairBit

theorem exactly {a b : Width} : SizeOnly (exactly a b) := by
  intro e failed
  unfold Encoding.exactly at failed
  split at failed <;> cases failed
  rfl

theorem immediateFits {w : Width} {i : Immediate} : SizeOnly (immediateFits w i) := by
  intro e failed
  unfold Encoding.immediateFits at failed
  split at failed <;> cases failed
  rfl

end SizeOnly

/-! ## The groups -/

section Groups

variable {o : Operands}

theorem arith_sizeOnly {ext : UInt8} (accepted : (Group.arith ext).accepts o.mode = true) :
    SizeOnly (arith ext o) := by
  cases o with
  | regReg dst src => exact .bind .pairBit fun _ => .pure _
  | regMem dst m => exact .bind .pairBit fun _ => .pure _
  | memReg m src => exact .bind .pairBit fun _ => .pure _
  | regImm dst i =>
      refine .bind .widthBit fun w => .bind .immediateFits fun _ => ?_
      exact .ite (.ite (.pure _) (.pure _)) (.ite (.pure _) (.ite (.pure _) (.pure _)))
  | memImm m i =>
      refine .bind .widthBit fun w => .bind .immediateFits fun _ => ?_
      exact .ite (.pure _) (.ite (.pure _) (.pure _))
  | _ => cases accepted

theorem mov_sizeOnly (accepted : Group.mov.accepts o.mode = true) : SizeOnly (mov o) := by
  cases o with
  | regReg dst src => exact .bind .pairBit fun _ => .pure _
  | regMem dst m => exact .bind .pairBit fun _ => .ite (.pure _) (.pure _)
  | memReg m src => exact .bind .pairBit fun _ => .ite (.pure _) (.pure _)
  | regImm dst i =>
      exact .bind .widthBit fun _ => .bind .immediateFits fun _ => .pure _
  | memImm m i =>
      exact .bind .widthBit fun _ => .bind .immediateFits fun _ => .pure _
  | sregReg s r => exact .bind .exactly fun _ => .pure _
  | sregMem s m => exact .bind .exactly fun _ => .pure _
  | regSreg r s => exact .bind .exactly fun _ => .pure _
  | memSreg m s => exact .bind .exactly fun _ => .pure _
  | _ => cases accepted

theorem push_sizeOnly (accepted : Group.push.accepts o.mode = true) : SizeOnly (push o) := by
  cases o with
  | reg r => exact .bind .exactly fun _ => .pure _
  | sreg s => exact .pure _
  | mem m => exact .bind .exactly fun _ => .pure _
  | _ => cases accepted

theorem xchg_sizeOnly (accepted : Group.xchg.accepts o.mode = true) : SizeOnly (xchg o) := by
  cases o with
  | regReg a b => exact .bind .pairBit fun _ => .ite (.pure _) (.ite (.pure _) (.pure _))
  | regMem r m => exact .bind .pairBit fun _ => .pure _
  | memReg m r => exact .bind .pairBit fun _ => .pure _
  | _ => cases accepted

theorem load_sizeOnly {opcode : UInt8} {w : Width}
    (accepted : (Group.load opcode w).accepts o.mode = true) : SizeOnly (load opcode w o) := by
  cases o with
  | regMem r m => exact .bind .exactly fun _ => .bind .exactly fun _ => .pure _
  | _ => cases accepted

theorem unary_sizeOnly {ext : UInt8} (accepted : (Group.unary ext).accepts o.mode = true) :
    SizeOnly (unary ext o) := by
  cases o with
  | reg r => exact .bind .widthBit fun _ => .pure _
  | mem m => exact .bind .widthBit fun _ => .pure _
  | _ => cases accepted

theorem incDec_sizeOnly {ext : UInt8} (accepted : (Group.incDec ext).accepts o.mode = true) :
    SizeOnly (incDec ext o) := by
  cases o with
  | reg r => exact .ite (.pure _) (.bind .widthBit fun _ => .pure _)
  | mem m => exact .bind .widthBit fun _ => .pure _
  | _ => cases accepted

theorem test_sizeOnly (accepted : Group.test.accepts o.mode = true) : SizeOnly (test o) := by
  cases o with
  | regReg dst src => exact .bind .pairBit fun _ => .pure _
  | regMem r m => exact .bind .pairBit fun _ => .pure _
  | memReg m r => exact .bind .pairBit fun _ => .pure _
  | regImm r i =>
      exact .bind .widthBit fun _ => .bind .immediateFits fun _ => .ite (.pure _) (.pure _)
  | memImm m i =>
      exact .bind .widthBit fun _ => .bind .immediateFits fun _ => .pure _
  | _ => cases accepted

theorem ret_sizeOnly {opcode : UInt8} (accepted : (Group.ret opcode).accepts o.mode = true) :
    SizeOnly (ret opcode o) := by
  cases o with
  | none => exact .pure _
  | imm i => exact .pure _
  | _ => cases accepted

theorem near_sizeOnly {relative ext : UInt8}
    (accepted : (Group.near relative ext).accepts o.mode = true) :
    SizeOnly (near relative ext o) := by
  cases o with
  | imm i => exact .pure _
  | reg r => exact .bind .exactly fun _ => .pure _
  | mem m => exact .bind .exactly fun _ => .pure _
  | _ => cases accepted

theorem far_sizeOnly {direct ext : UInt8} (accepted : (Group.far direct ext).accepts o.mode = true) :
    SizeOnly (far direct ext o) := by
  cases o with
  | immImm segment offset => exact .pure _
  | mem m => exact .bind .exactly fun _ => .pure _
  | _ => cases accepted

theorem int_sizeOnly (accepted : Group.int.accepts o.mode = true) : SizeOnly (int o) := by
  cases o with
  | imm i => exact .bind .exactly fun _ => .ite (.pure _) (.pure _)
  | _ => cases accepted

theorem short_sizeOnly {opcode : UInt8} (accepted : (Group.short opcode).accepts o.mode = true) :
    SizeOnly (short opcode o) := by
  cases o with
  | imm i => exact .bind .exactly fun _ => .pure _
  | _ => cases accepted

theorem pop_error {e : EncodeError} (accepted : Group.pop.accepts o.mode = true)
    (failed : pop o = .error e) :
    e = .sizeMismatch ∨ ∃ what, Misfit .pop o what ∧ e = .operandMismatch what := by
  cases o with
  | reg r => exact .inl (SizeOnly.bind .exactly (fun _ => .pure _) e failed)
  | sreg s =>
      cases s with
      | cs =>
          cases failed
          exact .inr ⟨_, .popCs, rfl⟩
      | _ => cases failed
  | mem m => exact .inl (SizeOnly.bind .exactly (fun _ => .pure _) e failed)
  | _ => cases accepted

/-- Input and output refuse the same operands. -/
theorem inOut_error {opcode : UInt8} {e : EncodeError} (accepted : o.mode = .imm ∨ o.mode = .reg)
    (failed : inOut opcode o = .error e) :
    e = .sizeMismatch ∨ ∃ r, r ≠ .dx ∧ o = .reg r ∧ e = .operandMismatch .addressNotDx := by
  cases o with
  | imm i => exact .inl (SizeOnly.bind .exactly (fun _ => .pure _) e failed)
  | reg r =>
      rw [inOut] at failed
      split at failed
      · cases failed
      · rename_i other
        cases failed
        exact .inr ⟨r, by simpa [Register.isDx] using other, rfl, rfl⟩
  | _ => rcases accepted with mode | mode <;> cases mode

theorem countIsOne_error {i : Immediate} {e : EncodeError} (failed : countIsOne i = .error e) :
    (i.symbolic = true ∨ i.value ≠ 1) ∧ e = .operandMismatch .shiftCount := by
  unfold countIsOne at failed
  split at failed
  · rename_i other
    cases failed
    exact ⟨other, rfl⟩
  · cases failed

theorem countIsCl_error {r : Register} {e : EncodeError} (failed : countIsCl r = .error e) :
    r ≠ .cl ∧ e = .operandMismatch .shiftRegister := by
  unfold countIsCl at failed
  split at failed
  · cases failed
  · rename_i other
    cases failed
    exact ⟨by simpa [Register.isCount] using other, rfl⟩

theorem shift_error {ext : UInt8} {e : EncodeError}
    (accepted : (Group.shift ext).accepts o.mode = true) (failed : shift ext o = .error e) :
    e = .sizeMismatch ∨ ∃ what, Misfit (.shift ext) o what ∧ e = .operandMismatch what := by
  cases o with
  | reg r => exact .inl (SizeOnly.bind .widthBit (fun _ => .pure _) e failed)
  | mem m => exact .inl (SizeOnly.bind .widthBit (fun _ => .pure _) e failed)
  | regImm r count =>
      rcases bind_eq_error.1 failed with wrong | ⟨_, _, sized⟩
      · obtain ⟨other, rfl⟩ := countIsOne_error wrong
        exact .inr ⟨_, .regCount other, rfl⟩
      · exact .inl (SizeOnly.bind .widthBit (fun _ => .pure _) e sized)
  | memImm m count =>
      rcases bind_eq_error.1 failed with wrong | ⟨_, _, sized⟩
      · obtain ⟨other, rfl⟩ := countIsOne_error wrong
        exact .inr ⟨_, .memCount other, rfl⟩
      · exact .inl (SizeOnly.bind .widthBit (fun _ => .pure _) e sized)
  | regReg r count =>
      rcases bind_eq_error.1 failed with wrong | ⟨_, _, sized⟩
      · obtain ⟨other, rfl⟩ := countIsCl_error wrong
        exact .inr ⟨_, .regRegister other, rfl⟩
      · exact .inl (SizeOnly.bind .widthBit (fun _ => .pure _) e sized)
  | memReg m count =>
      rcases bind_eq_error.1 failed with wrong | ⟨_, _, sized⟩
      · obtain ⟨other, rfl⟩ := countIsCl_error wrong
        exact .inr ⟨_, .memRegister other, rfl⟩
      · exact .inl (SizeOnly.bind .widthBit (fun _ => .pure _) e sized)
  | _ => cases accepted

end Groups

/-! ## All groups -/

/-- Operands whose combination is on the list of the group are refused for their sizes or as a
misfit, and never for want of a case. -/
theorem planGroup_error {group : Group} {o : Operands} {e : EncodeError}
    (accepted : group.accepts o.mode = true) (failed : planGroup group o = .error e) :
    e = .sizeMismatch ∨ ∃ what, Misfit group o what ∧ e = .operandMismatch what := by
  cases group with
  | arith ext => exact .inl (arith_sizeOnly accepted e failed)
  | mov => exact .inl (mov_sizeOnly accepted e failed)
  | push => exact .inl (push_sizeOnly accepted e failed)
  | pop => exact pop_error accepted failed
  | xchg => exact .inl (xchg_sizeOnly accepted e failed)
  | input w =>
      have mode : o.mode = .imm ∨ o.mode = .reg := by
        simpa [Group.accepts, Group.modes] using accepted
      rcases inOut_error mode failed with sized | ⟨r, other, rfl, rfl⟩
      · exact .inl sized
      · exact .inr ⟨_, .inputPort other, rfl⟩
  | output w =>
      have mode : o.mode = .imm ∨ o.mode = .reg := by
        simpa [Group.accepts, Group.modes] using accepted
      rcases inOut_error mode failed with sized | ⟨r, other, rfl, rfl⟩
      · exact .inl sized
      · exact .inr ⟨_, .outputPort other, rfl⟩
  | load opcode w => exact .inl (load_sizeOnly accepted e failed)
  | shift ext => exact shift_error accepted failed
  | unary ext => exact .inl (unary_sizeOnly accepted e failed)
  | incDec ext => exact .inl (incDec_sizeOnly accepted e failed)
  | test => exact .inl (test_sizeOnly accepted e failed)
  | ret opcode => exact .inl (ret_sizeOnly accepted e failed)
  | near relative ext => exact .inl (near_sizeOnly accepted e failed)
  | far direct ext => exact .inl (far_sizeOnly accepted e failed)
  | int => exact .inl (int_sizeOnly accepted e failed)
  | short opcode => exact .inl (short_sizeOnly accepted e failed)
  | single opcode => cases failed
  | double first second => cases failed

/-! ## Verdicts -/

/-- Whether a computation succeeds, and how it fails. -/
def verdict (x : Except EncodeError α) : Except EncodeError Unit := x.map fun _ => ()

@[simp] theorem verdict_pure (v : α) : verdict (pure v) = pure () := rfl

@[simp] theorem verdict_bind (x : Except EncodeError α) (f : α → Except EncodeError β) :
    verdict (x >>= f) = x >>= fun a => verdict (f a) := by
  cases x <;> rfl

@[simp] theorem verdict_map (x : Except EncodeError α) (f : α → β) :
    verdict (f <$> x) = verdict x := by
  cases x <;> rfl

@[simp] theorem verdict_ite (c : Prop) [Decidable c] (x y : Except EncodeError α) :
    verdict (if c then x else y) = if c then verdict x else verdict y := by
  split <;> rfl

theorem verdict_eq_error {x : Except EncodeError α} {e : EncodeError} :
    verdict x = .error e ↔ x = .error e := map_eq_error

@[simp] theorem immediateFits_outline (w : Width) (i : Immediate) :
    immediateFits w i.outline = immediateFits w i := rfl

/-- Values are compared with constants only to choose between encodings, but for the count of a
shift. -/
theorem planGroup_outline {group : Group} (notShift : ∀ ext, group ≠ .shift ext) (o : Operands) :
    verdict (planGroup group o.outline) = verdict (planGroup group o) := by
  cases group with
  | arith ext =>
      cases o with
      | memImm m i =>
          -- The branches end alike, which has to be seen before the widths they test are rewritten.
          simp only [planGroup, Operands.outline, arith, verdict_bind, verdict_ite, verdict_pure,
            ite_self]
          rfl
      | _ => simp [planGroup, Operands.outline, arith]
  | mov => cases o <;> simp [planGroup, Operands.outline, mov]
  | push => cases o <;> simp [planGroup, Operands.outline, push]
  | pop => cases o <;> simp [planGroup, Operands.outline, pop]
  | xchg => cases o <;> simp [planGroup, Operands.outline, xchg]
  | input width => cases o <;> simp [planGroup, Operands.outline, inOut]
  | output width => cases o <;> simp [planGroup, Operands.outline, inOut]
  | load opcode width => cases o <;> simp [planGroup, Operands.outline, load]
  | shift ext => exact absurd rfl (notShift ext)
  | unary ext => cases o <;> simp [planGroup, Operands.outline, unary]
  | incDec ext => cases o <;> simp [planGroup, Operands.outline, incDec]
  | test => cases o <;> simp [planGroup, Operands.outline, test]
  | ret opcode => cases o <;> simp [planGroup, Operands.outline, ret]
  | near relative ext => cases o <;> simp [planGroup, Operands.outline, near]
  | far direct ext => cases o <;> simp [planGroup, Operands.outline, far]
  | int => cases o <;> simp [planGroup, Operands.outline, int]
  | short opcode => cases o <;> simp [planGroup, Operands.outline, short]
  | single opcode => rfl
  | double first second => rfl

/-! ## Instructions -/

variable {op : Operation} {o : Operands} {segment : Option SegReg}

theorem plan_of_not_accepts (unlisted : op.group.accepts o.mode = false) :
    plan ⟨op, o⟩ segment = .error (.modeMismatch op o.mode) := by
  simp [plan, unlisted]

/-- The override plays no part in whether operands are taken. -/
theorem verdict_plan (listed : op.group.accepts o.mode = true) :
    verdict (plan ⟨op, o⟩ segment) = verdict (planGroup op.group o) := by
  simp only [plan, listed, ↓reduceIte]
  cases planGroup op.group o <;> rfl

theorem plan_eq_error (listed : op.group.accepts o.mode = true) {e : EncodeError} :
    plan ⟨op, o⟩ segment = .error e ↔ planGroup op.group o = .error e := by
  rw [← verdict_eq_error, verdict_plan listed, verdict_eq_error]

theorem plan_error_of_listed (listed : op.group.accepts o.mode = true) {e : EncodeError}
    (failed : plan ⟨op, o⟩ segment = .error e) :
    e = .sizeMismatch ∨ ∃ what, Misfit op.group o what ∧ e = .operandMismatch what :=
  planGroup_error listed ((plan_eq_error listed).1 failed)

theorem verdict_plan_outline (notShift : ∀ ext, op.group ≠ .shift ext) {o' : Operands}
    {segment' : Option SegReg} (alike : o.outline = o'.outline) :
    verdict (plan ⟨op, o⟩ segment) = verdict (plan ⟨op, o'⟩ segment') := by
  have mode : o.mode = o'.mode := by rw [← o.outline_mode, alike, o'.outline_mode]
  cases listed : op.group.accepts o.mode with
  | false => rw [plan_of_not_accepts listed, plan_of_not_accepts (mode ▸ listed), mode]
  | true =>
      rw [verdict_plan listed, verdict_plan (mode ▸ listed), ← planGroup_outline notShift o, alike,
        planGroup_outline notShift o']

theorem mem_modes {group : Group} {mode : AddrMode} :
    mode ∈ group.modes ↔ group.accepts mode = true := List.contains_iff_mem.symm

/-- A missing case is no misfit. -/
theorem Misfit.ne_unhandled {group : Group} {what : OperandFault} (misfit : Misfit group o what) :
    what ≠ .unhandledMode := by
  cases misfit <;> decide

/-- A misfit is refused as such, whatever its sizes. -/
theorem Misfit.refused {group : Group} {what : OperandFault} (misfit : Misfit group o what) :
    group.accepts o.mode = true ∧ planGroup group o = .error (.operandMismatch what) := by
  have wrongCount : ∀ {i : Immediate}, i.symbolic = true ∨ i.value ≠ 1 →
      countIsOne i = .error (.operandMismatch .shiftCount) := by
    intro i other
    rw [countIsOne, if_pos other]
  have wrongRegister : ∀ {r : Register}, r ≠ .cl →
      countIsCl r = .error (.operandMismatch .shiftRegister) := by
    intro r other
    simp [countIsCl, Register.isCount, other]
  cases misfit with
  | popCs => exact ⟨rfl, rfl⟩
  | inputPort other => exact ⟨rfl, by simp [planGroup, inOut, fault, Register.isDx, other]⟩
  | outputPort other => exact ⟨rfl, by simp [planGroup, inOut, fault, Register.isDx, other]⟩
  | regCount other => exact ⟨rfl, by rw [planGroup, shift, wrongCount other]; rfl⟩
  | memCount other => exact ⟨rfl, by rw [planGroup, shift, wrongCount other]; rfl⟩
  | regRegister other => exact ⟨rfl, by rw [planGroup, shift, wrongRegister other]; rfl⟩
  | memRegister other => exact ⟨rfl, by rw [planGroup, shift, wrongRegister other]; rfl⟩

theorem plan_misfit_iff {what : OperandFault} :
    plan ⟨op, o⟩ segment = .error (.operandMismatch what) ↔ Misfit op.group o what := by
  constructor
  · intro failed
    cases listed : op.group.accepts o.mode with
    | false =>
        rw [plan_of_not_accepts listed] at failed
        cases failed
    | true =>
        rcases plan_error_of_listed listed failed with sized | ⟨what', misfit, same⟩
        · cases sized
        · cases same
          exact misfit
  · intro misfit
    obtain ⟨listed, refused⟩ := misfit.refused
    exact (plan_eq_error listed).2 refused

/-- The list of combinations and the rules of the groups agree: operands are refused for their
combination exactly when it is not on the list; on the list they are taken, or refused for their
sizes or as a misfit, and no rule is without a case for them.  Outside shifts, neither the
override nor any displacement or immediate value makes a difference to that. -/
theorem listed_modes_handled (op : Operation) (o : Operands) (segment : Option SegReg) :
    ((∃ other mode, plan ⟨op, o⟩ segment = .error (.modeMismatch other mode)) ↔
      o.mode ∉ op.group.modes) ∧
    (o.mode ∈ op.group.modes →
      (∃ layout, plan ⟨op, o⟩ segment = .ok layout) ∨
        plan ⟨op, o⟩ segment = .error .sizeMismatch ∨
        ∃ what, plan ⟨op, o⟩ segment = .error (.operandMismatch what)) ∧
    (∀ what, plan ⟨op, o⟩ segment = .error (.operandMismatch what) ↔ Misfit op.group o what) ∧
    plan ⟨op, o⟩ segment ≠ .error (.operandMismatch .unhandledMode) ∧
    ((∀ ext, op.group ≠ .shift ext) → ∀ (o' : Operands) (segment' : Option SegReg),
      o.outline = o'.outline →
        ∀ e, plan ⟨op, o⟩ segment = .error e ↔ plan ⟨op, o'⟩ segment' = .error e) := by
  refine ⟨⟨?_, ?_⟩, ?_, fun what => plan_misfit_iff, ?_, ?_⟩
  · rintro ⟨other, mode, failed⟩ member
    rcases plan_error_of_listed (mem_modes.1 member) failed with sized | ⟨what, -, same⟩
    · cases sized
    · cases same
  · intro missing
    rw [mem_modes, Bool.not_eq_true] at missing
    exact ⟨op, o.mode, plan_of_not_accepts missing⟩
  · intro member
    cases result : plan ⟨op, o⟩ segment with
    | ok layout => exact .inl ⟨layout, rfl⟩
    | error e =>
        rcases plan_error_of_listed (mem_modes.1 member) result with rfl | ⟨what, -, rfl⟩
        · exact .inr (.inl rfl)
        · exact .inr (.inr ⟨what, rfl⟩)
  · intro failed
    exact (plan_misfit_iff.1 failed).ne_unhandled rfl
  · intro notShift o' segment' alike e
    rw [← verdict_eq_error, verdict_plan_outline notShift alike, verdict_eq_error]

/-- An interrupt through vector three is a byte shorter than any other and is taken alike. -/
theorem listed_modes_handled_breakpoint :
    plan ⟨.int, .imm ⟨3, .byte, false⟩⟩ none = .ok (.op 0xCC) ∧
      plan ⟨.int, .imm ⟨200, .byte, true⟩⟩ (some .es) ≠ .error .sizeMismatch := by
  have alike := (listed_modes_handled .int (.imm ⟨3, .byte, false⟩) none).2.2.2.2
    (by intro ext same; cases same) (.imm ⟨200, .byte, true⟩) (some .es) rfl .sizeMismatch
  refine ⟨rfl, ?_⟩
  intro failed
  cases alike.2 failed

end Asm86.Encoding
