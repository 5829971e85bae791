/-
# Asm86.Proofs.Source.Spacing -- gaps in expressions and operands

Two texts that differ in their gaps are cut at the same signs (`Respaced.pieces`).  A term that can be
read has no gap in it, so that both texts have the same terms (`Respaced.under_eq`), and are read as
the same expression (`Respaced.parseExpr`), reference (`Respaced.parseReference`) and operand
(`Respaced.parseOperand`).

The cut at signs and the search for gaps do not see the same quotes.  They part at a quoted quote
(`'''`), which opens a stretch that the reader takes as closed.  `QuotesLast` says that nothing
follows such a term.
-/
import Asm86.Proofs.Source.Brackets
import Asm86.Proofs.Source.Gaps

namespace Asm86.Source

open Asm86.Text
open Asm86.Machine

set_option autoImplicit false

variable {dup : Prop} {s t : List Char}

/-! ## Quoted quotes -/

theorem Respaced.withoutClosing {quote : Option Char} (quoting : Quoting isQuote quote)
    (respaced : Respaced dup quote s t) :
    Respaced False quote (s.filter (· != ']')) (t.filter (· != ']')) := by
  refine respaced.filter (fun c space => ?_) (fun c quote => ?_) quoting
  · rw [bne_iff_ne]
    rintro rfl
    exact absurd space (by decide)
  · rw [bne_iff_ne]
    rintro rfl
    exact absurd quote (by decide)

/-- Nothing but blanks stands behind a quoted quote, closing brackets aside. -/
def QuotesLast (s : List Char) : Prop :=
  ∀ u q v, s.filter (· != ']') = u ++ q :: q :: q :: v → isQuote q = true → allBlank v = true

/-- A text that goes on, after blanks, with something other than a closing bracket. -/
def Followed (back : List Char) : Prop :=
  ∃ gap c rest, back = gap ++ c :: rest ∧ allBlank gap = true ∧ isBlank c = false ∧ c ≠ ']'

theorem Followed.of_cons {c : Char} (shown : isBlank c = false) (other : c ≠ ']') (rest : List Char) :
    Followed (c :: rest) :=
  ⟨[], c, rest, rfl, rfl, shown, other⟩

theorem Followed.append {gap back : List Char} (blank : allBlank gap = true)
    (followed : Followed back) : Followed (gap ++ back) := by
  obtain ⟨gap', c, rest, rfl, blank', shown, other⟩ := followed
  refine ⟨gap ++ gap', c, rest, by simp, ?_, shown, other⟩
  rw [allBlank_append, blank, blank']
  rfl

namespace QuotesLast

theorem part (last : QuotesLast t) (inside : s <:+: t) : QuotesLast s := by
  obtain ⟨front, back, rfl⟩ := inside
  intro u q v whole quote
  have larger : allBlank (v ++ back.filter (· != ']')) = true :=
    last (front.filter (· != ']') ++ u) q _ (by simp [whole]) quote
  rw [allBlank_append, Bool.and_eq_true_iff] at larger
  exact larger.1

theorem of_respaced (respaced : Respaced dup none s t) (last : QuotesLast s) : QuotesLast t := by
  intro u q v whole quote
  have shown := isSpace_of_quote quote
  have filtered := respaced.symm.withoutClosing quoting_none
  rw [whole] at filtered
  obtain ⟨u', rest, same, -, first⟩ := filtered.split shown
  obtain ⟨rest', rfl, second⟩ := first.cons_left shown
  obtain ⟨v', rfl, third⟩ := second.cons_left shown
  rw [third.allBlank_eq]
  exact last u' q v' same quote

theorem flatten (last : QuotesLast s) : QuotesLast (MemoryRef.flatten s) := by
  intro u q v whole quote
  have kept : (MemoryRef.flatten s).filter (· != ']') = MemoryRef.flatten s := by
    refine List.filter_eq_self.2 fun c member => ?_
    rcases MemoryRef.mem_flatten member with ⟨rfl, -⟩ | ⟨-, -, other⟩
    · decide
    · exact bne_iff_ne.2 other
  have unchanged : ∀ {c : Char}, (if c == '[' then '+' else c) = q → c = q := by
    intro c same
    by_cases bracket : c = '['
    · rw [bracket] at same
      rw [← same] at quote
      exact absurd quote (by decide)
    · simpa [bracket] using same
  rw [kept, MemoryRef.flatten, List.map_eq_append_iff] at whole
  obtain ⟨u', rest, same, -, behind⟩ := whole
  obtain ⟨a, rest, rfl, first, behind⟩ := List.map_eq_cons_iff.1 behind
  obtain ⟨b, rest, rfl, second, behind⟩ := List.map_eq_cons_iff.1 behind
  obtain ⟨c, rest, rfl, third, behind⟩ := List.map_eq_cons_iff.1 behind
  rw [unchanged first, unchanged second, unchanged third] at same
  have blank : allBlank rest = true := last u' q rest same quote
  rw [← behind, allBlank, List.all_map, List.all_eq_true]
  intro d member
  have shown := List.all_eq_true.1 blank d member
  have other : d ≠ '[' := by
    rintro rfl
    exact absurd shown (by decide)
  simpa [other] using shown

theorem of_absent (absent : ∀ q, isQuote q = true → ¬ [q, q, q] <:+: s.filter (· != ']')) :
    QuotesLast s := by
  intro u q v whole quote
  exact absurd ⟨u, v, by simp [whole]⟩ (absent q quote)

theorem cons (last : QuotesLast s) {c : Char} (plain : isQuote c = false) : QuotesLast (c :: s) := by
  intro u q v whole quote
  by_cases kept : (c != ']') = true
  · rw [List.filter_cons, if_pos kept] at whole
    cases u with
    | nil =>
        rw [(List.cons.inj whole).1, quote] at plain
        cases plain
    | cons d u => exact last u q v (List.cons.inj whole).2 quote
  · rw [List.filter_cons, if_neg kept] at whole
    exact last u q v whole quote

/-- What is followed by a shown character is no quoted quote. -/
theorem trim_ne {a back : List Char} (last : QuotesLast (a ++ back)) (followed : Followed back)
    {q : Char} (quote : isQuote q = true) : trim a ≠ [q, q, q] := by
  intro quoted
  obtain ⟨gap, c, rest, rfl, -, shown, other⟩ := followed
  obtain ⟨front, behind, -, -, whole⟩ := trim_parts a
  have kept : q ≠ ']' := by
    rintro rfl
    exact absurd quote (by decide)
  have blank : allBlank (behind.filter (· != ']') ++
      (gap.filter (· != ']') ++ c :: rest.filter (· != ']'))) = true := by
    refine last (front.filter (· != ']')) q _ ?_ quote
    rw [whole, quoted]
    simp [kept, other]
  simp [allBlank, shown] at blank

end QuotesLast

/-! ## Terms -/

theorem Worded.quoteOver (worded : Worded s) : quoteOver none s = none :=
  quoting_none.plain_all fun c member => (worded.plain c member).1

/-- What a term may be, blanks around it aside: a text without blanks and quotes, or a quoted
character. -/
def Readable (s : List Char) : Prop :=
  (∀ c ∈ trim s, isBlank c = false ∧ isQuote c = false) ∨
    ∃ q c, isQuote q = true ∧ trim s = [q, c, q]

namespace Readable

theorem of_worded (worded : Worded s) : Readable s := by
  refine .inl fun c member => ?_
  rw [trim_tight worded.solid.tight] at member
  exact ⟨worded.solid c member, (worded.plain c member).1⟩

theorem of_literal {v : Int} (read : literal? s = some v) : Readable s :=
  (literal?_cases read).imp_left fun numeral c member => shown_of_isNumeralChar (numeral c member)

theorem of_trim (readable : Readable (trim s)) : Readable s := by
  rwa [Readable, trim_tight (tight_trim s)] at readable

/-- Other gaps leave a readable text as it is. -/
theorem trim_eq (readable : Readable s) (respaced : Respaced dup none s t) : trim t = trim s := by
  have trimmed := respaced.trim quoting_none
  rcases readable with plain | ⟨q, c, quote, whole⟩
  · exact trimmed.eq_of_solid fun c member => (plain c member).1
  · rw [whole] at trimmed ⊢
    obtain ⟨t₁, first, inside⟩ := trimmed.cons_left (isSpace_of_quote quote)
    rw [quoteAfter_quote quote] at inside
    obtain ⟨t₂, second, behind⟩ := inside.cons_quoted
    obtain ⟨t₃, third, ended⟩ := behind.cons_left (isSpace_of_quote quote)
    rw [first, second, third, ended.nil_left]

/-- A readable text closes its quotes, unless it is a quoted quote. -/
theorem closes (readable : Readable s) (single : ∀ q, isQuote q = true → trim s ≠ [q, q, q]) :
    quoteOver none s = none := by
  rw [← quoteOver_trim]
  rcases readable with plain | ⟨q, c, quote, quoted⟩
  · exact quoting_none.plain_all fun c member => (plain c member).2
  · have other : c ≠ q := by
      rintro rfl
      exact single c quote quoted
    simp [quoted, quoteAfter, quote, other]

end Readable

/-! ## Cutting at signs -/

theorem pieces_allBlank {w : List Char} (blank : allBlank w = true) {quote : Option Char}
    (quoting : Quoting isSingleQuote quote) (negative : Bool) (s : List Char) :
    pieces quote negative (w ++ s) = w.foldr Term.onFirst (pieces quote negative s) := by
  induction w with
  | nil => rfl
  | cons c w ih =>
      obtain ⟨first, later⟩ := Bool.and_eq_true_iff.1 blank
      obtain ⟨plus, minus⟩ := ne_sign_of_isBlank first
      have same := quoting.plain (isSingleQuote_of_isBlank first)
      simp [pieces, plus, minus, same, ih later]

/-- Both texts are cut at the same first sign, or at none. -/
theorem Respaced.pieces {quote : Option Char} (quoting : Quoting isQuote quote)
    (respaced : Respaced dup quote s t) (negative : Bool) {single : Option Char}
    (singly : Quoting isSingleQuote single) :
    (pieces single negative s = [⟨negative, s⟩] ∧ pieces single negative t = [⟨negative, t⟩]) ∨
      ∃ a s' a' t' sign, s = a ++ sign :: s' ∧ (sign = '+' ∨ sign = '-') ∧
        Respaced dup quote a a' ∧ Respaced dup (quoteOver quote a) s' t' ∧
        pieces single negative s = ⟨negative, a⟩ :: pieces none (sign == '-') s' ∧
        pieces single negative t = ⟨negative, a'⟩ :: pieces none (sign == '-') t' := by
  induction respaced generalizing single with
  | nil quote => exact .inl ⟨rfl, rfl⟩
  | @char quote s t c later ih =>
      by_cases sign : (single.isNone && (c == '+' || c == '-')) = true
      · have signs : c = '+' ∨ c = '-' := by
          simpa using (Bool.and_eq_true_iff.1 sign).2
        have plain : isQuote c = false := by
          rcases signs with rfl | rfl <;> decide
        refine .inr ⟨[], s, [], t, c, rfl, signs, .nil quote, ?_, ?_, ?_⟩
        · rwa [quoting.plain plain] at later
        · rw [Source.pieces, if_pos sign]
        · rw [Source.pieces, if_pos sign]
      · simp only [Source.pieces, if_neg sign]
        rcases ih (quoting.after c) (singly.after c) with
          ⟨left, right⟩ | ⟨a, s', a', t', sign, rfl, signs, front, back, left, right⟩
        · exact .inl ⟨by rw [left]; rfl, by rw [right]; rfl⟩
        · exact .inr ⟨c :: a, s', c :: a', t', sign, rfl, signs, .char c front, back,
            by rw [left]; rfl, by rw [right]; rfl⟩
  | @gap w w' s t left right kept later ih =>
      rw [pieces_allBlank left.blank singly, pieces_allBlank right.blank singly]
      rcases ih quoting_none singly with
        ⟨one, one'⟩ | ⟨a, s', a', t', sign, rfl, signs, front, back, one, one'⟩
      · exact .inl ⟨by rw [one, foldr_onFirst], by rw [one', foldr_onFirst]⟩
      · refine .inr ⟨w ++ a, s', w' ++ a', t', sign, by simp, signs, .gap left right ?_ front, ?_,
          by rw [one, foldr_onFirst], by rw [one', foldr_onFirst]⟩
        · exact fun asked starts => kept asked (startsDup_append starts _)
        · rwa [Respaced.quoteOver_gap left]

namespace Terms

/-- The terms of a text that is cut at a sign. -/
theorem under_cut {a s' : List Char} {negative minus : Bool}
    (cut : pieces none negative s = ⟨negative, a⟩ :: pieces none minus s') :
    under negative s =
      if allBlank a then (if negative && minus then ⟨[], false⟩ else under minus s')
      else ⟨⟨negative, trim a⟩ :: (under minus s').terms, (under minus s').complete⟩ := by
  obtain ⟨text, rest, next⟩ := pieces_eq_cons none minus s'
  rw [under, under, cut, next, ofPieces]

theorem under_uncut {negative : Bool} (uncut : pieces none negative s = [⟨negative, s⟩]) :
    under negative s = if allBlank s then ⟨[], false⟩ else ⟨[⟨negative, trim s⟩], true⟩ := by
  rw [under, uncut, ofPieces]

end Terms

namespace Respaced

/-- Both texts have the same terms when those of the first can be read, and it closes its quotes when
something follows it. -/
theorem under_eq (respaced : Respaced dup none s t) (negative : Bool) {back : List Char}
    (last : QuotesLast (s ++ back))
    (readable : ∀ term ∈ (Terms.under negative s).terms, Readable term.text)
    (complete : (Terms.under negative s).complete = true) :
    Terms.under negative t = Terms.under negative s ∧ (Followed back → quoteOver none s = none) := by
  -- Each cut leaves a shorter text, which is read from outside of quotes as its front is closed.
  induction size : s.length using Nat.strong_induction_on generalizing s t negative with
  | _ n ih =>
    subst size
    rcases respaced.pieces quoting_none negative quoting_none with
      ⟨left, right⟩ | ⟨a, s', a', t', sign, rfl, signs, front, behind, left, right⟩
    · rw [Terms.under_uncut left] at readable complete ⊢
      rw [Terms.under_uncut right, ← respaced.allBlank_eq]
      by_cases blank : allBlank s = true
      · simp [blank] at complete
      · simp only [blank, Bool.false_eq_true, ↓reduceIte] at readable ⊢
        have term : Readable s := Readable.of_trim (readable _ (List.mem_singleton_self _))
        exact ⟨by rw [term.trim_eq respaced],
          fun followed => term.closes fun q quote => last.trim_ne followed quote⟩
    · have more : Followed (sign :: (s' ++ back)) := by
        rcases signs with rfl | rfl <;> exact .of_cons (by decide) (by decide) _
      have shorter : s'.length < (a ++ sign :: s').length := by
        rw [List.length_append, List.length_cons]
        omega
      have rest : QuotesLast (s' ++ back) :=
        last.part ⟨a ++ [sign], [], by simp⟩
      have plain : isQuote sign = false := by
        rcases signs with rfl | rfl <;> decide
      rw [Terms.under_cut left] at readable complete ⊢
      rw [Terms.under_cut right, ← front.allBlank_eq]
      have closed : quoteOver none a = none →
          (∀ term ∈ (Terms.under (sign == '-') s').terms, Readable term.text) →
          (Terms.under (sign == '-') s').complete = true →
          Terms.under (sign == '-') t' = Terms.under (sign == '-') s' ∧
            (Followed back → quoteOver none (a ++ sign :: s') = none) := by
        intro closes readable complete
        rw [closes] at behind
        obtain ⟨same, closing⟩ := ih s'.length shorter behind (sign == '-') rest readable complete rfl
        refine ⟨same, fun followed => ?_⟩
        rw [quoteOver_append, closes, quoteOver_cons, quoteAfter_plain plain, closing followed]
      by_cases blank : allBlank a = true
      · simp only [blank, ↓reduceIte] at readable complete ⊢
        by_cases twice : (negative && (sign == '-')) = true
        · simp [twice] at complete
        · simp only [twice, Bool.false_eq_true, ↓reduceIte] at readable complete ⊢
          exact closed (quoting_none.plain_all (isQuote_of_allBlank blank)) readable complete
      · simp only [blank, Bool.false_eq_true, ↓reduceIte] at readable complete ⊢
        obtain ⟨first, others⟩ := List.forall_mem_cons.1 readable
        have term : Readable a := Readable.of_trim first
        rw [List.append_assoc, List.cons_append] at last
        obtain ⟨same, closing⟩ := closed
          (term.closes fun q quote => last.trim_ne more quote) others complete
        exact ⟨by rw [term.trim_eq front, same], closing⟩

end Respaced

/-! ## Reading terms -/

theorem Worded.of_reserved (reserved : ¬ Unreserved s) : Worded s := by
  have words : ∀ w ∈ reservedWords, w.toList.all Char.isAlpha = true ∧ w.toList ≠ [] := by decide
  simp only [Unreserved, not_forall, Bool.not_eq_false] at reserved
  obtain ⟨w, listed, found⟩ := reserved
  exact .of_isKeyword (words w listed).1 (words w listed).2 found

theorem Worded.of_register {r : Register} (named : Register.ofName? s = some r) : Worded s := by
  apply Worded.of_reserved
  intro free
  rw [free.register_none] at named
  cases named

theorem Worded.of_segment {r : SegReg} (named : SegReg.ofName? s = some r) : Worded s := by
  apply Worded.of_reserved
  intro free
  rw [free.segment_none] at named
  cases named

/-- A step that takes in nothing but readable terms. -/
def TakesReadable {α : Type} (step : α → Term → Except ParseError α) : Prop :=
  ∀ x term y, step x term = .ok y → Readable term.text

theorem TakesReadable.of_foldlM {α : Type} {step : α → Term → Except ParseError α}
    (takes : TakesReadable step) {terms : List Term} {start last : α} (folded : terms.foldlM step start = .ok last) :
    ∀ term ∈ terms, Readable term.text := by
  induction terms generalizing start with
  | nil => exact fun _ member => absurd member List.not_mem_nil
  | cons term terms ih =>
      obtain ⟨next, first, others⟩ := Checked.bind_eq_ok.1 folded
      exact List.forall_mem_cons.2 ⟨takes _ _ _ first, ih others⟩

theorem Expr.takesReadable_addTerm : TakesReadable Expr.addTerm := by
  intro e term e' added
  cases literal : literal? term.text with
  | some v => exact .of_literal literal
  | none =>
      simp only [Expr.addTerm, literal] at added
      split at added
      · rename_i named
        simp only [Bool.and_eq_true] at named
        exact .of_worded (.of_isIdentifier named.1.1)
      · cases added

theorem MemoryRef.takesReadable_addTerm : TakesReadable MemoryRef.addTerm := by
  intro m term m' added
  cases named : Register.ofName? term.text with
  | some r => exact .of_worded (.of_register named)
  | none =>
      rw [addTerm_disp named] at added
      obtain ⟨disp, read, -⟩ := Checked.map_eq_ok.1 added
      exact Expr.takesReadable_addTerm _ _ _ read

/-! ## Expressions -/

namespace Respaced

theorem foldText {α : Type} {step : α → Term → Except ParseError α} (takes : TakesReadable step)
    {start x : α} (respaced : Respaced dup none s t) {back : List Char}
    (last : QuotesLast (s ++ back))
    (read : Terms.foldText step start s = .ok x) :
    Terms.foldText step start t = .ok x ∧ (Followed back → quoteOver none s = none) := by
  obtain ⟨complete, folded⟩ := Terms.foldText_eq_ok.1 read
  obtain ⟨same, closes⟩ := respaced.under_eq false last (takes.of_foldlM folded) complete
  refine ⟨Terms.foldText_eq_ok.2 ?_, closes⟩
  rw [show Terms.ofText t = Terms.ofText s from same]
  exact ⟨complete, folded⟩

theorem stripped {keyword : String} (letters : keyword.toList.all Char.isAlpha = true)
    (nonempty : keyword.toList ≠ []) (respaced : Respaced dup none s t) :
    Respaced dup none ((stripKeyword? keyword s).getD s) ((stripKeyword? keyword t).getD t) := by
  obtain ⟨same, later⟩ := respaced.splitWord quoting_none
  simp only [stripKeyword?, ← same]
  split
  · rename_i found
    rwa [(Worded.of_isKeyword letters nonempty found).quoteOver] at later
  · exact respaced

end Respaced

/-- What a leading keyword leaves of a text, with what is cut off around it. -/
theorem stripKeyword?_parts {keyword : String} (letters : keyword.toList.all Char.isAlpha = true)
    (nonempty : keyword.toList ≠ []) (s : List Char) :
    ∃ front behind, s = front ++ ((stripKeyword? keyword (trim s)).getD (trim s) ++ behind) ∧
      (∀ c ∈ front, isQuote c = false) ∧ allBlank behind = true := by
  obtain ⟨front, behind, blankFront, blankBehind, whole⟩ := trim_parts s
  obtain ⟨gap, blank, parts⟩ := splitWord_parts s
  simp only [stripKeyword?, splitWord_trim]
  split
  · rename_i found
    have word := Worded.of_isKeyword letters nonempty found
    refine ⟨front ++ ((splitWord s).1 ++ gap), behind, ?_, ?_, blankBehind⟩
    · conv_lhs => rw [whole, parts]
      simp
    · intro c member
      rcases List.mem_append.1 member with before | inside
      · exact isQuote_of_allBlank blankFront c before
      · rcases List.mem_append.1 inside with inside | inside
        · exact (word.plain c inside).1
        · exact isQuote_of_allBlank blank c inside
  · exact ⟨front, behind, whole, isQuote_of_allBlank blankFront, blankBehind⟩

/-- An expression that can be read is read the same with other gaps, and closes its quotes when
something follows it. -/
theorem Respaced.parseExpr_closes (respaced : Respaced dup none s t) {back : List Char}
    (last : QuotesLast (s ++ back)) {e : Expr} (read : Expr.parse s = .ok e) :
    Expr.parse t = .ok e ∧ (Followed back → quoteOver none s = none) := by
  have body := (respaced.trim quoting_none).stripped
    (show "OFFSET".toList.all Char.isAlpha = true by decide) (by decide)
  obtain ⟨front, behind, whole, unquoted, blank⟩ := stripKeyword?_parts
    (show "OFFSET".toList.all Char.isAlpha = true by decide) (by decide) s
  unfold Expr.parse at read ⊢
  dsimp only at read ⊢
  generalize (stripKeyword? "OFFSET" (Text.trim s)).getD (Text.trim s) = inner at read body whole
  have lasting : QuotesLast (inner ++ (behind ++ back)) :=
    last.part ⟨front, [], by simp [whole]⟩
  obtain ⟨same, closes⟩ := body.foldText Expr.takesReadable_addTerm lasting read
  refine ⟨same, fun followed => ?_⟩
  rw [whole, quoteOver_append, quoting_none.plain_all unquoted, quoteOver_append,
    closes (followed.append blank), quoting_none.plain_all (isQuote_of_allBlank blank)]

theorem Respaced.parseExpr (respaced : Respaced dup none s t) (last : QuotesLast s) {e : Expr}
    (read : Expr.parse s = .ok e) : Expr.parse t = .ok e := by
  rw [← List.append_nil s] at last
  exact (respaced.parseExpr_closes last read).1

/-! ## References -/

namespace Respaced

theorem flatten {quote : Option Char} (quoting : Quoting isQuote quote)
    (respaced : Respaced dup quote s t) :
    Respaced False quote (MemoryRef.flatten s) (MemoryRef.flatten t) := by
  have kept := respaced.withoutClosing quoting
  clear respaced
  unfold MemoryRef.flatten
  generalize s.filter (· != ']') = s at kept
  generalize t.filter (· != ']') = t at kept
  induction kept with
  | nil quote => exact .nil quote
  | @char quote s t c later ih =>
      rw [List.map_cons, List.map_cons]
      refine .char _ ?_
      by_cases bracket : c = '['
      · subst bracket
        have same : quoteAfter isQuote quote '[' = quoteAfter isQuote quote '+' := by
          rw [quoting.plain (by decide), quoting.plain (by decide)]
        exact same ▸ ih (quoting.after _)
      · simpa [bracket] using ih (quoting.after c)
  | gap left right _ later ih =>
      have whole : ∀ {w : List Char}, Gap w → ∀ r : List Char,
          (w ++ r).map (fun c => if c == '[' then '+' else c) =
            w ++ r.map fun c => if c == '[' then '+' else c := by
        intro w gap r
        have same : ∀ c ∈ w, (if c == '[' then '+' else c) = c := fun c member => by
          simp [ne_of_mem_of_not_mem member (gap.not_mem (show isSpace '[' = false by decide))]
        rw [List.map_append, List.map_congr_left same, List.map_id']
      rw [whole left, whole right]
      exact .gap left right False.elim (ih quoting_none)

theorem dropWhile_eq {c : Char} (shown : isBlank c = false) (plain : isQuote c = false)
    {quote : Option Char} (quoting : Quoting isQuote quote) (respaced : Respaced dup quote s t) :
    Respaced dup quote (s.dropWhile (· == c)) (t.dropWhile (· == c)) := by
  induction respaced with
  | nil quote => exact .nil quote
  | @char quote s t d later ih =>
      by_cases same : d = c
      · subst same
        rw [quoting.plain plain] at ih
        simpa using ih quoting
      · simpa [same] using Respaced.char d later
  | @gap w w' s t left right kept later ih =>
      have whole : ∀ {w : List Char}, Gap w → ∀ r : List Char,
          (w ++ r).dropWhile (· == c) = w ++ r := by
        intro w gap r
        obtain ⟨b, rest, rfl, blank⟩ := gap.exists_cons
        have other : b ≠ c := by
          rintro rfl
          rw [blank] at shown
          cases shown
        simp [other]
      rw [whole left, whole right]
      exact .gap left right kept later

/-- A table of words finds the same in both texts. -/
theorem lookup_eq {α : Type} {find : List Char → Option α}
    (worded : ∀ {s x}, find s = some x → Worded s) (respaced : Respaced dup none s t) :
    find t = find s := by
  cases found : find s with
  | some x => rw [respaced.eq_of_solid (worded found).solid, found]
  | none =>
      cases found' : find t with
      | none => rfl
      | some x =>
          rw [respaced.symm.eq_of_solid (worded found').solid, found'] at found
          cases found

theorem splitOverride (respaced : Respaced dup none s t) (last : QuotesLast s)
    {segment : Option SegReg} {body : List Char}
    (read : MemoryRef.splitOverride s = .ok (segment, body)) :
    ∃ body', MemoryRef.splitOverride t = .ok (segment, body') ∧ Respaced dup none body body' ∧
      QuotesLast body := by
  unfold MemoryRef.splitOverride at read ⊢
  cases cut : Text.cutAt? ':' s with
  | none =>
      rw [cut] at read
      cases read
      exact ⟨t, by rw [respaced.cutAt?_none (by decide) cut], respaced, last⟩
  | some parts =>
      obtain ⟨before, after⟩ := parts
      obtain ⟨before', after', cut', front, behind⟩ := respaced.cutAt? (by decide) cut
      have bare := (front.trim quoting_none).dropWhile_eq (c := '[') (by decide) (by decide)
        quoting_none
      simp only [cut] at read
      simp only [cut', bare.lookup_eq Worded.of_segment]
      cases named : SegReg.ofName? ((Text.trim before).dropWhile fun c => c == '[') with
      | none =>
          rw [named] at read
          cases read
      | some r =>
          rw [named] at read
          -- Nothing before the colon is a quote, so that a gap behind it is outside of quotes.
          have unquoted : ∀ c ∈ Text.trim before, isQuote c = false := by
            intro c member
            rw [← List.takeWhile_append_dropWhile (p := fun c => c == '[') (l := Text.trim before)]
              at member
            rcases List.mem_append.1 member with bracket | inside
            · have same : (c == '[') = true :=
                List.mem_takeWhile_imp (p := fun c => c == '[') bracket
              rw [beq_iff_eq.1 same]
              decide
            · exact ((Worded.of_segment named).plain c inside).1
          rw [← quoteOver_trim, quoting_none.plain_all unquoted] at behind
          have rest : QuotesLast after :=
            last.part ⟨before ++ [':'], [], by simp [eq_append_of_cutAt? cut]⟩
          simp only [Except.ok.injEq, Prod.mk.injEq] at read
          obtain ⟨rfl, rfl⟩ := read
          refine ⟨_, rfl, ?_, ?_⟩
          · simp only [respaced.head?_iff (c := '[') (by decide)]
            split
            · exact .char '[' behind
            · exact behind
          · split
            · exact rest.cons (by decide)
            · exact rest

/-- A reference that can be read is read the same with other gaps. -/
theorem parseReference (respaced : Respaced dup none s t) (last : QuotesLast s)
    {width : Option Width} {m : MemoryRef} (read : MemoryRef.parse s width = .ok m) :
    MemoryRef.parse t width = .ok m := by
  obtain ⟨⟨segment, body⟩, split, read⟩ := Checked.bind_eq_ok.1 read
  obtain ⟨body', split', inner, rest⟩ :=
    (respaced.trim quoting_none).splitOverride (last.part (trim_part s)) split
  have flat : QuotesLast (MemoryRef.flatten body ++ []) := by
    rw [List.append_nil]
    exact rest.flatten
  refine Checked.bind_eq_ok.2 ⟨(segment, body'), split', ?_⟩
  exact ((inner.flatten quoting_none).foldText MemoryRef.takesReadable_addTerm flat read).1

/-! ## Operands -/

theorem splitWidth (respaced : Respaced dup none s t) :
    (splitWidth s).1 = (splitWidth t).1 ∧
      Respaced dup none (splitWidth s).2 (splitWidth t).2 := by
  obtain ⟨same, later⟩ := respaced.splitWord quoting_none
  have sized : ∀ {keyword : String}, keyword.toList.all Char.isAlpha = true ∧ keyword.toList ≠ [] →
      isKeyword keyword (Text.splitWord s).1 = true →
      Respaced dup none ((stripKeyword? "PTR" (Text.splitWord s).2).getD (Text.splitWord s).2)
        ((stripKeyword? "PTR" (Text.splitWord t).2).getD (Text.splitWord t).2) := by
    intro keyword letters found
    rw [(Worded.of_isKeyword letters.1 letters.2 found).quoteOver] at later
    exact later.stripped (by decide) (by decide)
  unfold Source.splitWidth
  dsimp only
  rw [← same]
  split
  · rename_i found
    simpa only [true_and] using sized (by decide) found
  · split
    · rename_i found
      simpa only [true_and] using sized (by decide) found
    · split
      · rename_i found
        simpa only [true_and] using sized (by decide) found
      · exact ⟨rfl, respaced⟩

theorem parsePlain (respaced : Respaced dup none s t) (last : QuotesLast s) {o : Operand}
    (read : Operand.parsePlain s = .ok o) : Operand.parsePlain t = .ok o := by
  unfold Operand.parsePlain at read ⊢
  rw [respaced.lookup_eq Worded.of_register, respaced.lookup_eq Worded.of_segment]
  cases register : Register.ofName? s with
  | some r => simpa [register] using read
  | none =>
    cases segment : SegReg.ofName? s with
    | some r => simpa [register, segment] using read
    | none =>
      cases cut : Text.cutAt? ':' s with
      | none =>
          simp only [register, segment, cut] at read
          obtain ⟨e, parsed, rfl⟩ := Checked.map_eq_ok.1 read
          simp only [respaced.cutAt?_none (by decide) cut, respaced.parseExpr last parsed]
          rfl
      | some parts =>
          obtain ⟨before, after⟩ := parts
          obtain ⟨before', after', cut', front, behind⟩ := respaced.cutAt? (by decide) cut
          simp only [register, segment, cut] at read
          simp only [cut', (front.trim quoting_none).lookup_eq Worded.of_segment]
          split at read
          · rename_i override
            obtain ⟨m, parsed, rfl⟩ := Checked.map_eq_ok.1 read
            rw [if_pos override, respaced.parseReference last parsed]
            rfl
          · rename_i far
            rw [if_neg far]
            obtain ⟨base, parsed, read⟩ := Checked.bind_eq_ok.1 read
            obtain ⟨offset, parsed', made⟩ := Checked.bind_eq_ok.1 read
            have whole : QuotesLast (before ++ ':' :: after) := eq_append_of_cutAt? cut ▸ last
            obtain ⟨same, closes⟩ := front.parseExpr_closes whole parsed
            rw [closes (.of_cons (by decide) (by decide) after)] at behind
            have rest : QuotesLast after := whole.part ⟨before ++ [':'], [], by simp⟩
            exact Checked.bind_eq_ok.2 ⟨base, same,
              Checked.bind_eq_ok.2 ⟨offset, behind.parseExpr rest parsed', made⟩⟩

/-- An operand that can be read is read the same with other gaps. -/
theorem parseOperand (respaced : Respaced dup none s t) (last : QuotesLast s) {o : Operand}
    (read : Operand.parse s = .ok o) : Operand.parse t = .ok o := by
  obtain ⟨width, body⟩ := (respaced.trim quoting_none).splitWidth
  have lasting : QuotesLast (Source.splitWidth (Text.trim s)).2 := by
    obtain ⟨front, behind, whole, -⟩ := (Within.splitWidth (Text.trim s)).trans (Within.trim s)
    exact last.part ⟨front, behind, by simpa using whole.symm⟩
  unfold Operand.parse at read ⊢
  dsimp only at read ⊢
  have bracket : (Source.splitWidth (Text.trim s)).2.contains '[' =
      (Source.splitWidth (Text.trim t)).2.contains '[' := by
    rw [Bool.eq_iff_iff, List.contains_iff_mem, List.contains_iff_mem]
    exact body.mem_iff (by decide)
  rw [← bracket, ← width]
  split at read
  · rename_i memory
    obtain ⟨m, parsed, rfl⟩ := Checked.map_eq_ok.1 read
    rw [if_pos memory, body.parseReference lasting parsed]
    rfl
  · rename_i plain
    rw [if_neg plain]
    split at read
    · cases read
    · rename_i unsized
      rw [if_neg unsized]
      exact body.parsePlain lasting read

end Respaced

end Asm86.Source
