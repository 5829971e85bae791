/-
# Asm86.Proofs.Source.Operands -- operands read back

Every text of an operand is read as this operand (`Operand.parse_spelled`).  An operand
without a size is one solid word, which no keyword gets a part of; the text of a far pointer
is cut at its colon, since no expression has one in it; and the brackets of a reference come to a
plus sign before its sum.
-/
import Asm86.Proofs.Source.Sums

namespace Asm86.Source

open Asm86.Text
open Asm86.Machine

set_option autoImplicit false

/-! ## Operands without a size -/

/-- No size word. -/
def Unsized (s : List Char) : Prop := ∀ w : Width, isKeyword w.name s = false

theorem Unreserved.unsized {s : List Char} (free : Unreserved s) : Unsized s := by
  intro w
  cases w <;> exact free _ (by decide)

theorem splitWidth_solid {s : List Char} (solid : Solid s) (unsized : Unsized s) :
    splitWidth s = (none, s) := by
  have byte : isKeyword "BYTE" s = false := unsized .byte
  have word : isKeyword "WORD" s = false := unsized .word
  have dword : isKeyword "DWORD" s = false := unsized .dword
  simp [splitWidth, splitWord_solid solid, byte, word, dword]

theorem Operand.parse_solid {s : List Char} (solid : Solid s) (unsized : Unsized s)
    (bare : '[' ∉ s) : Operand.parse s = Operand.parsePlain s := by
  simp [Operand.parse, trim_tight solid.tight, splitWidth_solid solid unsized, bare]

/-- What holds of the sixteen registers with a name holds of every register that can be written. -/
theorem forall_register {P : Register → Prop}
    (every : ∀ w ∈ [Width.byte, .word], ∀ i : Fin 8, P ⟨w, .ofNat i⟩) {r : Register}
    (sized : r.width ≠ .dword) (small : r.id < 8) : P r := by
  obtain ⟨width, id⟩ := r
  have listed : width ∈ [Width.byte, .word] := by
    cases width
    · decide
    · decide
    · exact absurd rfl sized
  simpa using every width listed ⟨id.toNat, UInt8.lt_iff_toNat_lt.1 small⟩

theorem Operand.parse_register {r : Register} (sized : r.width ≠ .dword) (small : r.id < 8) :
    Operand.parse r.name.toList = .ok (.reg r) :=
  forall_register (P := fun r => Operand.parse r.name.toList = .ok (.reg r)) (by decide) sized small

theorem Operand.parse_segment (s : SegReg) : Operand.parse s.name.toList = .ok (.sreg s) := by
  cases s <;> rfl

theorem Operand.parse_expr {e : Expr} {parts : List Part} (sum : PartsOf none none e parts)
    (writable : e.Writable) : Operand.parse (partsText parts) = .ok (.imm e) := by
  have summed := partsText_summed sum.nonempty (sum.writable writable)
  have free := sum.unreserved writable
  have colon : cutAt? ':' (partsText parts) = none :=
    cutAt?_of_not_mem (summed.not_mem (by decide))
  rw [parse_solid summed.solid free.unsized (summed.not_mem (by decide)),
    parsePlain]
  simp only [free.register_none, free.segment_none, colon, Expr.parse_partsText sum writable]
  rfl

theorem Operand.parse_far {segment offset : Expr} {parts parts' : List Part}
    (first : PartsOf none none segment parts) (second : PartsOf none none offset parts')
    (writable : segment.Writable) (writable' : offset.Writable) :
    Operand.parse (partsText parts ++ ':' :: partsText parts') = .ok (.far segment offset) := by
  have summed := partsText_summed first.nonempty (first.writable writable)
  have summed' := partsText_summed second.nonempty (second.writable writable')
  have free : Unreserved (partsText parts ++ ':' :: partsText parts') :=
    Unreserved.of_mem (c := ':') (by simp) (by decide)
  have solid : Solid (partsText parts ++ ':' :: partsText parts') :=
    summed.solid.append (summed'.solid.cons (by decide))
  have bare : '[' ∉ partsText parts ++ ':' :: partsText parts' := by
    have left : '[' ∉ partsText parts := summed.not_mem (by decide)
    have right : '[' ∉ partsText parts' := summed'.not_mem (by decide)
    simp [left, right]
  have colon : cutAt? ':' (partsText parts ++ ':' :: partsText parts') = _ :=
    cutAt?_append (summed.not_mem (by decide)) _
  rw [parse_solid solid free.unsized bare, parsePlain]
  simp only [free.register_none, free.segment_none, colon, trim_tight summed.solid.tight,
    (first.unreserved writable).segment_none, Expr.parse_partsText first writable,
    Expr.parse_partsText second writable']
  rfl

/-! ## Memory references -/

theorem flatten_brackets {s : List Char} (summed : Summed s) :
    MemoryRef.flatten ('[' :: (s ++ [']'])) = '+' :: s := by
  have opens : '[' ∉ s := summed.not_mem (by decide)
  have closes : ']' ∉ s := summed.not_mem (by decide)
  have kept : s.filter (fun c => c != ']') = s :=
    List.filter_eq_self.2 fun c member => bne_iff_ne.2 (ne_of_mem_of_not_mem member closes)
  have unchanged : s.map (fun c => if c = '[' then '+' else c) = s := by
    rw [List.map_congr_left (g := id), List.map_id]
    intro c member
    exact if_neg (ne_of_mem_of_not_mem member opens)
  simp [MemoryRef.flatten, kept, unchanged]

theorem splitOverride_referenceText (segment : Option SegReg) {parts : List Part}
    (summed : Summed (partsText parts)) :
    MemoryRef.splitOverride (referenceText segment parts) =
      .ok (segment, '[' :: (partsText parts ++ [']'])) := by
  have colon : ':' ∉ partsText parts := summed.not_mem (by decide)
  cases segment with
  | none =>
      have absent : cutAt? ':' ('[' :: (partsText parts ++ [']'])) = none :=
        cutAt?_of_not_mem (by simp [colon])
      simp [MemoryRef.splitOverride, referenceText, overrideText, absent]
  | some s =>
      have cut : cutAt? ':' (s.name.toList ++ ':' :: ('[' :: (partsText parts ++ [']']))) =
          some (s.name.toList, '[' :: (partsText parts ++ [']'])) :=
        cutAt?_append (by cases s <;> decide) _
      have whole : referenceText (some s) parts =
          s.name.toList ++ ':' :: ('[' :: (partsText parts ++ [']'])) := by
        simp [referenceText, overrideText]
      rw [whole, MemoryRef.splitOverride, cut]
      cases s <;> rfl

theorem referenceText_solid (segment : Option SegReg) {parts : List Part}
    (summed : Summed (partsText parts)) : Solid (referenceText segment parts) := by
  have front : Solid (overrideText segment) := by
    cases segment with
    | none => exact fun _ member => absurd member List.not_mem_nil
    | some s => cases s <;> decide
  exact front.append (.cons (by decide) (summed.solid.append (by decide)))

theorem MemoryRef.parse_referenceText {m : MemoryRef} {parts : List Part}
    (sum : PartsOf m.base m.index m.disp parts) (writable : m.disp.Writable) :
    MemoryRef.parse (referenceText m.segment parts) m.width = .ok m := by
  have summed := partsText_summed sum.nonempty (sum.writable writable)
  rw [MemoryRef.parse, trim_tight (referenceText_solid m.segment summed).tight,
    splitOverride_referenceText m.segment summed]
  show Terms.foldText _ _ (MemoryRef.flatten _) = _
  rw [flatten_brackets summed, foldText_reference sum writable]

theorem width_name_solid (w : Width) : Solid w.name.toList := by
  cases w <;> decide

theorem width_name_ne_nil (w : Width) : w.name.toList ≠ [] := by
  cases w <;> decide

theorem sizeText_tight (width : Option Width) {s : List Char} (solid : Solid s)
    (nonempty : s ≠ []) : Tight (sizeText width ++ s) := by
  cases width with
  | none => exact solid.tight
  | some w =>
      rw [sizeText, List.append_assoc]
      exact (width_name_solid w).tight.around solid.tight (width_name_ne_nil w) nonempty _

theorem splitWidth_sizeText (w : Width) {s : List Char} (solid : Solid s) (nonempty : s ≠ []) :
    splitWidth (sizeText (some w) ++ s) = (some w, s) := by
  have letters : Solid "PTR".toList := by decide
  have tight : Tight ("PTR".toList ++ ' ' :: s) :=
    letters.tight.around solid.tight (by decide) nonempty [' ']
  have pointer : stripKeyword? "PTR" ("PTR".toList ++ ' ' :: s) = some s := by
    rw [stripKeyword?, splitWord_append letters (by decide) solid.tight nonempty]
    rfl
  have rest : (stripKeyword? "PTR" ("PTR".toList ++ ' ' :: s)).getD ("PTR".toList ++ ' ' :: s) =
      s := by
    rw [pointer, Option.getD_some]
  have text : sizeText (some w) ++ s = w.name.toList ++ ' ' :: ("PTR".toList ++ ' ' :: s) := by
    simp [sizeText]
  rw [text, splitWidth,
    splitWord_append (width_name_solid w) (width_name_ne_nil w) tight (by simp)]
  cases w <;> exact Prod.ext rfl rest

theorem Operand.parse_mem {m : MemoryRef} {parts : List Part}
    (sum : PartsOf m.base m.index m.disp parts) (writable : m.disp.Writable) :
    Operand.parse (sizeText m.width ++ referenceText m.segment parts) = .ok (.mem m) := by
  have summed := partsText_summed sum.nonempty (sum.writable writable)
  have solid := referenceText_solid m.segment summed
  have bracket : '[' ∈ referenceText m.segment parts := by simp [referenceText]
  have nonempty : referenceText m.segment parts ≠ [] := List.ne_nil_of_mem bracket
  have sized : splitWidth (sizeText m.width ++ referenceText m.segment parts) =
      (m.width, referenceText m.segment parts) := by
    cases m.width with
    | none => exact splitWidth_solid solid (Unreserved.of_mem bracket (by decide)).unsized
    | some w => exact splitWidth_sizeText w solid nonempty
  rw [Operand.parse, trim_tight (sizeText_tight _ solid nonempty), sized]
  simp only [List.contains_iff_mem.2 bracket, if_true, MemoryRef.parse_referenceText sum writable]
  rfl

/-- **Every text of an operand is read as this operand.** -/
theorem Operand.parse_spelled {o : Operand} {text : List Char} (spelled : o.Spelled text)
    (writable : o.Writable) : Operand.parse text = .ok o := by
  cases spelled with
  | reg r => exact parse_register writable.1 writable.2
  | sreg s => exact parse_segment s
  | imm sum => exact parse_expr sum writable
  | far first second => exact parse_far first second writable.1 writable.2
  | mem sum => exact parse_mem sum writable

end Asm86.Source
