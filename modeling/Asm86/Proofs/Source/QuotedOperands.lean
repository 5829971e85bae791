/-
# Asm86.Proofs.Source.QuotedOperands -- operands with a character in quotes

What the reader does to an operand, it does at the ends of the text, at brackets and at the first
colon.  A character in quotes that is none of those goes through unseen: the text stays `around`
something, the same for every such character, when it is trimmed (`trim_around`), when a keyword is
cut off (`stripKeyword?_around`), when an override is (`splitOverride_around`) and when its brackets
are read as signs (`flatten_around`).  What is left is a sum.
-/
import Asm86.Proofs.Source.Brackets
import Asm86.Proofs.Source.QuotedCharacter

namespace Asm86.Source

open Asm86.Text
open Asm86.Machine

set_option autoImplicit false

section

variable {q c d : Char} {u v : List Char}

/-! ## Words in front -/

/-- Names and blanks. -/
def Light (front : List Char) : Prop := ∀ x ∈ front, isNameChar x = true ∨ isBlank x = true

theorem Light.not_mem {front : List Char} (light : Light front) {x : Char}
    (foreign : isNameChar x = false) (shown : isBlank x = false) : x ∉ front := by
  intro member
  rcases light x member with name | blank
  · rw [foreign] at name
    cases name
  · rw [shown] at blank
    cases blank

theorem Light.signs_append {front : List Char} (light : Light front) (u : List Char) :
    signs (front ++ u) = signs u := by
  have minus : '-' ∉ front := light.not_mem (by decide) (by decide)
  have plus : '+' ∉ front := light.not_mem (by decide) (by decide)
  have bracket : '[' ∉ front := light.not_mem (by decide) (by decide)
  have none : signs front = [] := by
    refine List.filterMap_eq_nil_iff.2 fun x member => ?_
    simp [ne_of_mem_of_not_mem member minus, ne_of_mem_of_not_mem member plus,
      ne_of_mem_of_not_mem member bracket]
  rw [signs, List.filterMap_append]
  exact congrArg (· ++ signs u) none

theorem light_of_allBlank {front : List Char} (blank : allBlank front = true) : Light front :=
  fun x member => .inr (List.all_eq_true.1 blank x member)

/-- A keyword is cut off in front of the quoted character or not at all. -/
theorem stripKeyword?_around (quote : isQuote q = true) {keyword : String}
    (letters : keyword.toList.all Char.isAlpha = true ∧ keyword.toList ≠ []) (u v : List Char) :
    (∀ x, stripKeyword? keyword (around u q x v) = none) ∨
      ∃ front u', u = front ++ u' ∧ Light front ∧
        ∀ x, stripKeyword? keyword (around u q x v) = some (around u' q x (trimEnd v)) := by
  rcases splitWord_around (quote_isBlank quote) u with
    taken | ⟨front, w, gap, u', rfl, blankFront, blankGap, tight, cut⟩
  · refine .inl fun x => ?_
    have foreign : q.toUpper ∉ keyword.toList := fun inside => by
      have letter := List.all_eq_true.1 letters.1 _ inside
      rw [quote_foreign quote] at letter
      cases letter
    simp [stripKeyword?, isKeyword_eq_false (taken (x :: q :: v)) foreign, around]
  · by_cases found : isKeyword keyword w = true
    · refine .inr ⟨front ++ (w ++ gap), u', by simp, ?_, fun x => ?_⟩
      · refine List.forall_mem_append.2 ⟨light_of_allBlank blankFront, List.forall_mem_append.2 ⟨?_, ?_⟩⟩
        · exact fun x member => .inl ((Worded.of_isKeyword letters.1 letters.2 found).chars x member)
        · exact light_of_allBlank blankGap
      · have trimmed := trim_around quote u' x v
        rw [tight] at trimmed
        simp only [stripKeyword?, around] at trimmed ⊢
        simp only [cut, found, ↓reduceIte, trimmed]
    · refine .inl fun x => ?_
      simp only [stripKeyword?, around, cut, found, Bool.false_eq_true, ↓reduceIte]

theorem trimStart_light (u : List Char) : ∃ front, Light front ∧ u = front ++ trimStart u :=
  ⟨u.takeWhile isBlank, light_of_allBlank List.all_takeWhile, List.takeWhile_append_dropWhile.symm⟩

theorem Light.append {front front' : List Char} (light : Light front) (light' : Light front') :
    Light (front ++ front') :=
  List.forall_mem_append.2 ⟨light, light'⟩

theorem Light.endsInMinus {front : List Char} (light : Light front) (u : List Char) :
    Source.endsInMinus (front ++ u) = Source.endsInMinus u := by
  rw [Source.endsInMinus, light.signs_append, Source.endsInMinus]

theorem Expr.parse_around (quote : isQuote q = true) (inertC : Inert q c) (inertD : Inert q d)
    (single : ∀ x ∈ u, isSingleQuote x = false) (flat : '[' ∉ u) (v : List Char) :
    Carried (Expr.Shifted (codeShift (endsInMinus u) c d)) (Expr.parse (around u q c v))
      (Expr.parse (around u q d v)) := by
  obtain ⟨front, light, whole⟩ := trimStart_light u
  have sum : ∀ {front' u'}, Light front' → u = front' ++ u' → ∀ v',
      Carried (Expr.Shifted (codeShift (endsInMinus u) c d))
        (Terms.foldText Expr.addTerm {} (around u' q c v'))
        (Terms.foldText Expr.addTerm {} (around u' q d v')) := by
    rintro front' u' light' rfl v'
    rw [light'.endsInMinus]
    exact foldText_around Expr.addTerm_shifted quote inertC inertD
      (List.forall_mem_append.1 single).2 (fun member => flat (List.mem_append_right _ member))
      (fun e a b => Expr.addTerm_around quote inertC inertD e _ a b) {} v'
  have letters : "OFFSET".toList.all Char.isAlpha = true ∧ "OFFSET".toList ≠ [] := by decide
  simp only [Expr.parse, trim_around quote]
  rcases stripKeyword?_around quote letters (trimStart u) (trimEnd v) with
    kept | ⟨front', u', inner, light', cut⟩
  · rw [kept, kept]
    exact sum light whole _
  · rw [cut, cut]
    exact sum (light.append light') (by rw [List.append_assoc, ← inner, ← whole]) _

/-! ## Overrides and sizes -/

/-- What stands behind the first colon, or all. -/
def behindColon (u : List Char) : List Char := ((cutAt? ':' u).map Prod.snd).getD u

/-- The last sign before the quoted character is a minus.  A colon starts anew. -/
def underMinus (u : List Char) : Bool := endsInMinus (behindColon u)

theorem Light.underMinus {front : List Char} (light : Light front) (u : List Char) :
    Source.underMinus (front ++ u) = Source.underMinus u := by
  have cut := cutAt?_append_left (light.not_mem (x := ':') (by decide) (by decide)) u
  unfold Source.underMinus behindColon
  rw [cut]
  cases cutAt? ':' u with
  | none => exact light.endsInMinus u
  | some parts => rfl

theorem cutAt?_around (colon : ':' ∉ u) {x : Char} (other : x ≠ ':') (quote : isQuote q = true) :
    cutAt? ':' (around u q x v) =
      (cutAt? ':' v).map fun parts => (around u q x parts.1, parts.2) := by
  have mark : q ≠ ':' := by
    rintro rfl
    exact absurd quote (by decide)
  rw [around, cutAt?_append_left colon]
  cases rest : cutAt? ':' v <;> simp [cutAt?, mark, other, rest, around]

namespace MemoryRef

/-- An override ends in a colon before the quotes, or there is none. -/
theorem splitOverride_around (quote : isQuote q = true) (u v : List Char) :
    (∀ x, (x = ':' → ':' ∈ u) → ∃ e, splitOverride (around u q x v) = .error e) ∨
      ∃ segment u', endsInMinus u' = underMinus u ∧ u' ⊆ '[' :: u ∧
        ∀ x, (x = ':' → ':' ∈ u) → splitOverride (around u q x v) = .ok (segment, around u' q x v) := by
  cases cut : cutAt? ':' u with
  | none =>
      have absent := not_mem_of_cutAt? cut
      cases rest : cutAt? ':' v with
      | none =>
          refine .inr ⟨none, u, by simp [underMinus, behindColon, cut], by simp, fun x colon => ?_⟩
          simp [splitOverride, cutAt?_around absent (fun same => absent (colon same)) quote, rest]
      | some parts =>
          refine .inl fun x colon => ?_
          have kept : ∀ (s : List Char), q ∈ s → q ∈ s.dropWhile fun c => c == '[' := by
            intro s member
            rw [← List.takeWhile_append_dropWhile (p := fun c => c == '[') (l := s)] at member
            refine (List.mem_append.1 member).resolve_left fun bracket => ?_
            have same : q = '[' := by simpa using List.mem_takeWhile_imp bracket
            exact absurd (same ▸ quote) (by decide)
          have free : Unreserved ((trim (around u q x parts.1)).dropWhile fun c => c == '[') := by
            refine Unreserved.of_mem (kept _ ?_) (quote_foreign quote)
            rw [trim_around quote]
            exact mem_around ..
          simp [splitOverride, cutAt?_around absent (fun same => absent (colon same)) quote, rest,
            free.segment_none]
  | some parts =>
      obtain ⟨before, after⟩ := parts
      have found : ∀ x, cutAt? ':' (around u q x v) = some (before, around after q x v) :=
        fun x => cutAt?_append_of_some cut _
      have inside : after ⊆ u := by
        rw [eq_append_of_cutAt? cut]
        simp
      have sign : underMinus u = endsInMinus after := by simp [underMinus, behindColon, cut]
      cases named : SegReg.ofName? ((trim before).dropWhile fun c => c == '[') with
      | none =>
          refine .inl fun x _ => ?_
          simp [splitOverride, found, named]
      | some r =>
          have head : ∀ x, ((around u q x v).head? = some '[') = (u.head? = some '[') := by
            intro x
            cases u with
            | nil => cases cut
            | cons c u => rfl
          by_cases bracket : u.head? = some '['
          · refine .inr ⟨some r, '[' :: after, ?_, ?_, fun x _ => ?_⟩
            · rw [sign, endsInMinus, endsInMinus]
              exact congrArg (·.getD false) (List.getLast?_cons ..)
            · exact List.cons_subset_cons _ inside
            · simp only [splitOverride, found, named, head, bracket, ↓reduceIte]
              rfl
          · refine .inr ⟨some r, after, sign.symm, fun c member => .tail _ (inside member), fun x _ => ?_⟩
            simp only [splitOverride, found, named, head, bracket, ↓reduceIte]

theorem flatten_around (quote : isQuote q = true) {x : Char} (opening : x ≠ '[')
    (closing : x ≠ ']') (u v : List Char) :
    flatten (around u q x v) = around (flatten u) q x (flatten v) := by
  have mark : q ≠ '[' ∧ q ≠ ']' := by rcases isQuote_cases quote with rfl | rfl <;> decide
  rw [around, flatten_append]
  simp [flatten, around, opening, closing, mark]

theorem parse_around (quote : isQuote q = true) (inertC : Inert q c) (inertD : Inert q d)
    (single : ∀ x ∈ u, isSingleQuote x = false) (colonC : c = ':' → ':' ∈ u)
    (colonD : d = ':' → ':' ∈ u) (closingC : c ≠ ']') (closingD : d ≠ ']') (width : Option Width)
    (v : List Char) :
    Carried (MemoryRef.Shifted (codeShift (underMinus u) c d)) (parse (around u q c v) width)
      (parse (around u q d v) width) := by
  obtain ⟨front, light, whole⟩ := trimStart_light u
  have same : underMinus u = underMinus (trimStart u) := by
    conv_lhs => rw [whole, light.underMinus]
  have colon : ':' ∈ u → ':' ∈ trimStart u := by
    intro member
    rw [whole] at member
    exact (List.mem_append.1 member).resolve_left (light.not_mem (by decide) (by decide))
  have quoteless : ∀ x ∈ trimStart u, isSingleQuote x = false := fun x member =>
    single x (by rw [whole]; exact List.mem_append_right _ member)
  simp only [parse, trim_around quote]
  rcases splitOverride_around quote (trimStart u) (trimEnd v) with
    refused | ⟨segment, u', sign, inside, cut⟩
  · obtain ⟨e, first⟩ := refused c fun x => colon (colonC x)
    obtain ⟨e', second⟩ := refused d fun x => colon (colonD x)
    rw [first, second]
    exact .neither e e'
  · rw [cut c fun x => colon (colonC x), cut d fun x => colon (colonD x), same, ← sign]
    have signs : endsInMinus (flatten u') = endsInMinus u' := by
      rw [endsInMinus, signs_flatten, endsInMinus]
    change Carried _ (Terms.foldText addTerm _ (flatten _)) (Terms.foldText addTerm _ (flatten _))
    rw [flatten_around quote inertC.opening closingC, flatten_around quote inertD.opening closingD,
      ← signs]
    refine foldText_around MemoryRef.addTerm_shifted quote inertC inertD ?_ ?_
      (fun m a b => MemoryRef.addTerm_around quote inertC inertD m _ a b) _ _
    · intro x member
      rcases mem_flatten member with ⟨rfl, -⟩ | ⟨kept, opening, -⟩
      · decide
      · rcases List.mem_cons.1 (inside kept) with rfl | old
        · exact absurd rfl opening
        · exact quoteless x old
    · intro member
      rcases mem_flatten member with ⟨impossible, -⟩ | ⟨-, opening, -⟩
      · exact absurd impossible (by decide)
      · exact opening rfl

end MemoryRef

/-- A size is cut off in front of the quoted character or not at all. -/
theorem splitWidth_around (quote : isQuote q = true) (u v : List Char) :
    (∀ x, splitWidth (around u q x v) = (none, around u q x v)) ∨
      ∃ w front u' v', u = front ++ u' ∧ Light front ∧ v' ⊆ v ∧
        ∀ x, splitWidth (around u q x v) = (some w, around u' q x v') := by
  by_cases unsized : ∀ w : Width, ∀ x, stripKeyword? w.name (around u q x v) = none
  · exact .inl fun x => splitWidth_unsized fun w => unsized w x
  · obtain ⟨w, kept⟩ := not_forall.1 unsized
    obtain ⟨front, u', rfl, light, cut⟩ :=
      (stripKeyword?_around quote (width_name_letters w) u v).resolve_left kept
    have ending := trimEnd_subset v
    have letters : "PTR".toList.all Char.isAlpha = true ∧ "PTR".toList ≠ [] := by decide
    rcases stripKeyword?_around quote letters u' (trimEnd v) with
      bare | ⟨front', u'', rfl, light', cut'⟩
    · refine .inr ⟨w, front, u', trimEnd v, rfl, light, ending, fun x => ?_⟩
      rw [splitWidth_sized (cut x), bare, Option.getD_none]
    · have ending' : trimEnd (trimEnd v) ⊆ v := fun x member =>
        ending (trimEnd_subset _ member)
      refine .inr ⟨w, front ++ front', u'', trimEnd (trimEnd v), by simp, light.append light', ending',
        fun x => ?_⟩
      rw [splitWidth_sized (cut x), cut', Option.getD_some]

/-! ## Operands -/

/-- The operand is a memory reference: there is a bracket, or a segment register before the first
colon. -/
def Addresses (u v : List Char) : Prop :=
  '[' ∈ u ++ v ∨ ∃ before after, cutAt? ':' u = some (before, after) ∧
    (SegReg.ofName? (trim before)).isSome = true

/-- A character that is no syntax where it stands in quotes: a colon only behind another one, and a
closing bracket only outside of memory references. -/
structure InertIn (u : List Char) (q c : Char) (v : List Char) : Prop extends Inert q c where
  colon : c = ':' → ':' ∈ u
  closing : c = ']' → ¬ Addresses u v

/-- What is left out is seen in spite of the quotes.  An opening bracket makes a memory reference,
and its code is that of the plus which stands for it there. -/
example :
    Operand.parse "'['".toList = .ok (.mem ⟨none, none, none, none, ⟨43, none⟩⟩) ∧
      Operand.parse "'a'".toList = .ok (.imm ⟨97, none⟩) := by
  decide

/-- The first colon cuts the text, a closing bracket is dropped from a memory reference, and a sign
in double quotes starts a term. -/
example :
    Operand.parse "':'".toList = .error (.badTerm "'") ∧
      Operand.parse "[BX+']']".toList = .error (.badTerm "''") ∧
      Operand.parse "\"+\"".toList = .error (.badTerm "\"") := by
  decide

namespace Operand

theorem parsePlain_around (quote : isQuote q = true) (inertC : InertIn u q c v)
    (inertD : InertIn u q d v) (single : ∀ x ∈ u, isSingleQuote x = false) (flat : '[' ∉ u) :
    Carried (Operand.Shifted (codeShift (underMinus u) c d)) (parsePlain (around u q c v))
      (parsePlain (around u q d v)) := by
  have register := fun x => (unreserved_around quote u x v).register_none
  have segment := fun x => (unreserved_around quote u x v).segment_none
  cases cut : cutAt? ':' u with
  | some parts =>
      obtain ⟨before, after⟩ := parts
      have found : ∀ x, cutAt? ':' (around u q x v) = some (before, around after q x v) :=
        fun x => cutAt?_append_of_some cut _
      by_cases named : (SegReg.ofName? (trim before)).isSome = true
      · have addresses : Addresses u v := .inr ⟨before, after, cut, named⟩
        simp only [parsePlain, register, segment, found, named, ↓reduceIte]
        exact (MemoryRef.parse_around quote inertC.toInert inertD.toInert single inertC.colon
          inertD.colon (fun same => inertC.closing same addresses)
          (fun same => inertD.closing same addresses) none v).map fun _ _ => .mem
      · have inside : after ⊆ u := by
          rw [eq_append_of_cutAt? cut]
          simp
        have sign : underMinus u = endsInMinus after := by simp [underMinus, behindColon, cut]
        simp only [parsePlain, register, segment, found, named, Bool.false_eq_true, ↓reduceIte]
        rw [sign]
        exact (Expr.parse_around quote inertC.toInert inertD.toInert
          (fun x member => single x (inside member)) (fun member => flat (inside member))
          v).far_offset (Expr.parse before)
  | none =>
      have absent := not_mem_of_cutAt? cut
      have uncutC := cutAt?_around (v := v) absent (fun same => absent (inertC.colon same)) quote
      have uncutD := cutAt?_around (v := v) absent (fun same => absent (inertD.colon same)) quote
      have sign : underMinus u = endsInMinus u := by simp [underMinus, behindColon, cut]
      have sum := fun v' => Expr.parse_around quote inertC.toInert inertD.toInert single flat v'
      rw [sign]
      cases rest : cutAt? ':' v with
      | none =>
          simp only [parsePlain, register, segment, uncutC, uncutD, rest, Option.map_none]
          exact (sum v).map fun _ _ => .imm
      | some parts =>
          have unnamed : ∀ x, SegReg.ofName? (trim (around u q x parts.1)) = none := fun x => by
            rw [trim_around quote]
            exact (unreserved_around quote _ x _).segment_none
          simp only [parsePlain, register, segment, uncutC, uncutD, rest, Option.map_some, unnamed,
            Option.isSome_none, Bool.false_eq_true, ↓reduceIte]
          exact (sum parts.1).far_segment (Expr.parse parts.2)

end Operand

theorem contains_around (quote : isQuote q = true) {x : Char} (opening : x ≠ '[') (u v : List Char) :
    (around u q x v).contains '[' = (u ++ v).contains '[' := by
  have mark : q ≠ '[' := by
    rintro rfl
    exact absurd quote (by decide)
  simp [around, Ne.symm opening, Ne.symm mark]

theorem Addresses.of_trim (addresses : Addresses (trimStart u) (trimEnd v)) : Addresses u v := by
  obtain ⟨front, blank, whole⟩ : ∃ front, allBlank front = true ∧ u = front ++ trimStart u :=
    ⟨u.takeWhile isBlank, List.all_takeWhile, List.takeWhile_append_dropWhile.symm⟩
  rcases addresses with bracket | ⟨before, after, cut, named⟩
  · refine .inl (List.mem_append.2 ((List.mem_append.1 bracket).imp (fun left => ?_) fun right => ?_))
    · rw [whole]
      exact List.mem_append_right _ left
    · exact trimEnd_subset v right
  · refine .inr ⟨front ++ before, after, ?_, by rwa [trim_append_left blank]⟩
    rw [whole, cutAt?_append_left (not_mem_of_allBlank blank (by decide)), cut]
    rfl

theorem InertIn.trim (inert : InertIn u q c v) : InertIn (trimStart u) q c (trimEnd v) where
  toInert := inert.toInert
  colon same := by
    obtain ⟨front, light, whole⟩ := trimStart_light u
    have member := inert.colon same
    rw [whole] at member
    exact (List.mem_append.1 member).resolve_left (light.not_mem (by decide) (by decide))
  closing same addresses := inert.closing same addresses.of_trim

/-- A reference behind a size, or behind nothing. -/
theorem InertIn.parse_reference {front u v : List Char} (light : Light front)
    (inertC : InertIn (front ++ u) q c v) (inertD : InertIn (front ++ u) q d v)
    (quote : isQuote q = true) (single : ∀ x ∈ front ++ u, isSingleQuote x = false)
    (bracket : '[' ∈ front ++ u ++ v) (width : Option Width) (v' : List Char) :
    Carried (Operand.Shifted (codeShift (underMinus (front ++ u)) c d))
      ((MemoryRef.parse (around u q c v') width).map .mem)
      ((MemoryRef.parse (around u q d v') width).map .mem) := by
  have colon : ':' ∈ front ++ u → ':' ∈ u := fun member =>
    (List.mem_append.1 member).resolve_left (light.not_mem (by decide) (by decide))
  have closingC : c ≠ ']' := fun same => inertC.closing same (.inl bracket)
  have closingD : d ≠ ']' := fun same => inertD.closing same (.inl bracket)
  have read := MemoryRef.parse_around quote inertC.toInert inertD.toInert
    (List.forall_mem_append.1 single).2 (fun same => colon (inertC.colon same))
    (fun same => colon (inertD.colon same)) closingC closingD width v'
  rw [light.underMinus]
  exact read.map fun _ _ => .mem

/-- **A quoted character goes unseen.**  Where the characters are no syntax, two operands that differ
in a quoted character are both refused or both read, with the same kind, size, override, registers
and name and one constant apart by the codes, under the sign before the quotes.  Only an overflow
of that constant can refuse one of them alone. -/
theorem Operand.parse_carries_quoted {u v : List Char} {q c d : Char} (quote : isQuote q = true)
    (single : '\x27' ∉ u) (inertC : InertIn u q c v) (inertD : InertIn u q d v) :
    Carried (Operand.Shifted (codeShift (underMinus u) c d)) (Operand.parse (around u q c v))
      (Operand.parse (around u q d v)) := by
  have trimmedC := inertC.trim
  have trimmedD := inertD.trim
  obtain ⟨front, light, whole⟩ := trimStart_light u
  have sign : underMinus u = underMinus (trimStart u) := by
    conv_lhs => rw [whole, light.underMinus]
  have single' : ∀ x ∈ trimStart u, isSingleQuote x = false := by
    intro x member
    have other : x ≠ '\x27' := by
      rintro rfl
      exact single (by rw [whole]; exact List.mem_append_right _ member)
    simpa [isSingleQuote] using other
  simp only [Operand.parse, trim_around quote]
  rw [sign]
  generalize trimStart u = u at *
  generalize trimEnd v = v at *
  rcases splitWidth_around quote u v with
    unsized | ⟨w, front', u', v', rfl, light', inside, sized⟩
  · simp only [unsized, contains_around quote trimmedC.opening, contains_around quote trimmedD.opening]
    by_cases bracket : '[' ∈ u ++ v
    · simp only [List.contains_iff_mem.2 bracket, ↓reduceIte]
      exact @InertIn.parse_reference _ _ _ [] u v (by simp [Light]) trimmedC trimmedD quote single'
        bracket none v
    · simp only [List.contains_iff_mem, bracket, Option.isSome_none, Bool.false_eq_true, ↓reduceIte]
      exact parsePlain_around quote trimmedC trimmedD single'
        fun member => bracket (List.mem_append_left _ member)
  · simp only [sized, contains_around quote trimmedC.opening, contains_around quote trimmedD.opening]
    by_cases bracket : '[' ∈ u' ++ v'
    · simp only [List.contains_iff_mem.2 bracket, ↓reduceIte]
      refine InertIn.parse_reference light' trimmedC trimmedD quote single' ?_ (some w) v'
      rcases List.mem_append.1 bracket with left | right
      · simp [left]
      · simp [inside right]
    · simp only [List.contains_iff_mem, bracket, Option.isSome_some, ↓reduceIte]
      exact .neither _ _

end

/-- Under a minus, and with a colon in the quotes behind the colon of an override. -/
theorem Operand.parse_carries_quoted_reference :
    let reference (disp : Int) : Operand := .mem ⟨some .word, some .es, some .bx, none, ⟨disp, none⟩⟩
    Operand.parse "WORD PTR ES:[BX-'a']".toList = .ok (reference (-97)) ∧
      Operand.parse "WORD PTR ES:[BX-':']".toList = .ok (reference (-58)) ∧
      Operand.Shifted (97 - 58) (reference (-97)) (reference (-58)) := by
  intro reference
  have letter : Operand.parse "WORD PTR ES:[BX-'a']".toList = .ok (reference (-97)) := by decide
  have colon : Operand.parse "WORD PTR ES:[BX-':']".toList = .ok (reference (-58)) := by decide
  have carried := Operand.parse_carries_quoted (u := "WORD PTR ES:[BX-".toList) (v := "]".toList)
    (q := '\x27') (c := 'a') (d := ':') (by decide) (by decide)
    ⟨⟨by decide, by decide, by decide, by decide⟩, by decide, fun same => absurd same (by decide)⟩
    ⟨⟨by decide, by decide, by decide, by decide⟩, by decide, fun same => absurd same (by decide)⟩
  change Carried _ (Operand.parse "WORD PTR ES:[BX-'a']".toList)
    (Operand.parse "WORD PTR ES:[BX-':']".toList) at carried
  rw [letter, colon] at carried
  cases carried with
  | both shifted => exact ⟨letter, colon, shifted⟩

/-- A constant overflows as it is added up, even where the whole sum would be inside its range. -/
theorem Operand.quoted_overflows_alone :
    Operand.parse "9223372036854775700+'a'-200".toList = .ok (.imm ⟨9223372036854775597, none⟩) ∧
      Operand.parse "9223372036854775700+'z'-200".toList = .error (.constantOverflow "'z'") := by
  decide

end Asm86.Source
