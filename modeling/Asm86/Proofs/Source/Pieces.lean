/-
# Asm86.Proofs.Source.Pieces -- cutting an expression at its signs

An expression is cut into pieces at its signs, and the pieces that hold nothing but blanks are
dropped.  `Terms.under negative s` are the terms of `s` when a sign stands before it.  Read from the
left, the text does one of four things to them:

* a blank changes nothing (`under_blank`), and neither do blanks at the end (`ofText_trim`);
* a plus sign clears the sign before it (`under_plus`);
* a minus sign ends the expression when a minus stands before it (`under_minus`);
* a word is a term, and what follows it starts anew (`under_word`).
-/
import Asm86.Proofs.Source.Sums

namespace Asm86.Source

open Asm86.Text

set_option autoImplicit false

/-- The first piece stands under the sign before the text. -/
theorem pieces_eq_cons (quote : Option Char) (negative : Bool) (s : List Char) :
    ∃ text rest, pieces quote negative s = ⟨negative, text⟩ :: rest := by
  induction s generalizing quote with
  | nil => exact ⟨[], [], rfl⟩
  | cons c s ih =>
      by_cases sign : (quote.isNone && (c == '+' || c == '-')) = true
      · exact ⟨[], _, by rw [pieces, if_pos sign]⟩
      · obtain ⟨text, rest, later⟩ := ih (quoteAfter isSingleQuote quote c)
        exact ⟨c :: text, rest, by rw [pieces, if_neg sign, later]; rfl⟩

/-- A character that is neither a sign nor a quote goes to the piece that it stands in. -/
theorem pieces_plain {c : Char} (plus : c ≠ '+') (minus : c ≠ '-') (single : isSingleQuote c = false)
    (negative : Bool) (s : List Char) :
    pieces none negative (c :: s) = Term.onFirst c (pieces none negative s) := by
  simp [pieces, plus, minus, quoteAfter_plain single]

theorem ne_sign_of_isBlank {c : Char} (blank : isBlank c = true) : c ≠ '+' ∧ c ≠ '-' := by
  constructor
  · rintro rfl
    exact absurd blank (by decide)
  · rintro rfl
    exact absurd blank (by decide)

theorem isSingleQuote_of_isBlank {c : Char} (blank : isBlank c = true) : isSingleQuote c = false :=
  (Bool.or_eq_false_iff.1 (plain_of_isBlank blank).1).1

theorem pieces_blank {c : Char} (blank : isBlank c = true) (quote : Option Char) (negative : Bool)
    (s : List Char) : ∃ after, pieces quote negative (c :: s) =
      Term.onFirst c (pieces after negative s) ∧ (quote = none → after = none) := by
  obtain ⟨plus, minus⟩ := ne_sign_of_isBlank blank
  refine ⟨quoteAfter isSingleQuote quote c, by simp [pieces, plus, minus], ?_⟩
  rintro rfl
  exact quoteAfter_plain (isSingleQuote_of_isBlank blank)

namespace Terms

theorem foldText_eq_ok {α : Type} {step : α → Term → Except ParseError α} {start last : α}
    {s : List Char} :
    foldText step start s = .ok last ↔
      (ofText s).complete = true ∧ (ofText s).terms.foldlM step start = .ok last := by
  simp only [foldText, Checked.bind_eq_ok]
  constructor
  · rintro ⟨found, folded, ended⟩
    split at ended
    · rename_i complete
      cases ended
      exact ⟨complete, folded⟩
    · cases ended
  · rintro ⟨complete, folded⟩
    exact ⟨last, folded, by simp [complete, pure, Except.pure]⟩

/-! ## Blanks -/

/-- Two pieces under the same sign that are the same apart from blanks around them. -/
def Alike (p p' : Term) : Prop := p.negative = p'.negative ∧ trim p.text = trim p'.text

theorem allBlank_iff_trim (s : List Char) : allBlank s = true ↔ trim s = [] := by
  constructor
  · intro blank
    simp [trim, trimStart, trimEnd, List.dropWhile_eq_nil_iff.2 (List.all_eq_true.1 blank)]
  · intro empty
    obtain ⟨front, back, blankFront, blankBack, whole⟩ := trim_parts s
    rw [whole, empty, List.nil_append, allBlank, List.all_append]
    exact Bool.and_eq_true_iff.2 ⟨blankFront, blankBack⟩

theorem allBlank_congr {p p' : Term} (alike : Alike p p') : allBlank p.text = allBlank p'.text := by
  rw [Bool.eq_iff_iff, allBlank_iff_trim, allBlank_iff_trim, alike.2]

/-- Only the sign and the trimmed text of a piece count. -/
theorem ofPieces_congr {ps ps' : List Term} (alike : List.Forall₂ Alike ps ps') :
    ofPieces ps = ofPieces ps' := by
  induction alike with
  | nil => rfl
  | @cons p p' rest rest' first others ih =>
      have blank := allBlank_congr first
      cases others with
      | nil => simp only [ofPieces, blank, first.1, first.2]
      | cons next _ => simp only [ofPieces, blank, first.1, first.2, next.1, ih]

theorem forall₂_alike_refl (ps : List Term) : List.Forall₂ Alike ps ps :=
  List.forall₂_same.2 fun _ _ => ⟨rfl, rfl⟩

/-- The terms of a text that stands behind a sign. -/
def under (negative : Bool) (s : List Char) : Terms := ofPieces (pieces none negative s)

theorem under_blank {c : Char} (blank : isBlank c = true) (negative : Bool) (s : List Char) :
    under negative (c :: s) = under negative s := by
  obtain ⟨plus, minus⟩ := ne_sign_of_isBlank blank
  obtain ⟨text, rest, cut⟩ := pieces_eq_cons none negative s
  rw [under, under, pieces_plain plus minus (isSingleQuote_of_isBlank blank), cut]
  exact ofPieces_congr (.cons ⟨rfl, trim_cons_blank blank text⟩ (forall₂_alike_refl rest))

theorem under_blanks {front : List Char} (blank : allBlank front = true) (negative : Bool)
    (s : List Char) : under negative (front ++ s) = under negative s := by
  induction front with
  | nil => rfl
  | cons c front ih =>
      obtain ⟨first, later⟩ := Bool.and_eq_true_iff.1 blank
      rw [List.cons_append, under_blank first, ih later]

/-- Blanks at the end go to the last piece, wherever the quotes are. -/
theorem pieces_append_blank {back : List Char} (blank : allBlank back = true) (quote : Option Char)
    (negative : Bool) (s : List Char) :
    List.Forall₂ (fun p p' => p.negative = p'.negative ∧
        ∃ more, allBlank more = true ∧ p.text = p'.text ++ more)
      (pieces quote negative (s ++ back)) (pieces quote negative s) := by
  induction s generalizing quote negative with
  | nil =>
      have ending : pieces quote negative back = [⟨negative, back⟩] := by
        induction back generalizing quote with
        | nil => rfl
        | cons c back ih =>
            obtain ⟨first, later⟩ := Bool.and_eq_true_iff.1 blank
            obtain ⟨after, step, -⟩ := pieces_blank first quote negative back
            rw [step, ih later]
            rfl
      rw [List.nil_append, ending]
      exact .cons ⟨rfl, back, blank, rfl⟩ .nil
  | cons c s ih =>
      rw [List.cons_append, pieces, pieces]
      split
      · exact .cons ⟨rfl, [], rfl, rfl⟩ (ih none _)
      · have later := ih (quoteAfter isSingleQuote quote c) negative
        generalize pieces (quoteAfter isSingleQuote quote c) negative (s ++ back) = ps at later ⊢
        generalize pieces (quoteAfter isSingleQuote quote c) negative s = ps' at later ⊢
        cases later with
        | nil => exact .nil
        | cons first others =>
            obtain ⟨sign, more, blanks, text⟩ := first
            exact .cons ⟨sign, more, blanks, congrArg (c :: ·) text⟩ others

theorem under_append_blank {back : List Char} (blank : allBlank back = true) (negative : Bool)
    (s : List Char) : under negative (s ++ back) = under negative s := by
  refine ofPieces_congr ((pieces_append_blank blank none negative s).imp ?_)
  rintro p p' ⟨sign, more, blanks, text⟩
  exact ⟨sign, by rw [text, trim_append_allBlank blanks]⟩

/-- Blanks around an expression do not count. -/
theorem ofText_trim (s : List Char) : ofText (trim s) = ofText s := by
  obtain ⟨front, back, blankFront, blankBack, whole⟩ := trim_parts s
  have same : under false s = under false (trim s) := by
    conv_lhs => rw [whole]
    rw [under_blanks blankFront, under_append_blank blankBack]
  exact same.symm

/-! ## Signs -/

theorem under_plus (negative : Bool) (s : List Char) :
    under negative ('+' :: s) = under false s := by
  obtain ⟨text, rest, cut⟩ := pieces_eq_cons none false s
  simp [under, pieces, cut, ofPieces, allBlank]

theorem under_minus (negative : Bool) (s : List Char) :
    under negative ('-' :: s) = if negative then ⟨[], false⟩ else under true s := by
  obtain ⟨text, rest, cut⟩ := pieces_eq_cons none true s
  cases negative <;> simp [under, pieces, cut, ofPieces, allBlank]

/-! ## Words -/

theorem under_last {w : List Char} (worded : Worded w) (negative : Bool) :
    under negative w = ⟨[⟨negative, w⟩], true⟩ := by
  have cut := pieces_append worded.chars negative []
  rw [List.append_nil, show pieces none negative [] = [⟨negative, []⟩] from rfl, foldr_onFirst,
    List.append_nil] at cut
  rw [under, cut, ofPieces_terms (by simpa using worded) (List.cons_ne_nil _ _)]

/-- Blanks and a sign behind a word end the term. -/
theorem under_word {w gap : List Char} (worded : Worded w) (blank : allBlank gap = true) {c : Char}
    (sign : c = '+' ∨ c = '-') (negative : Bool) (s : List Char) :
    under negative (w ++ (gap ++ c :: s)) =
      ⟨⟨negative, w⟩ :: (under false (c :: s)).terms, (under false (c :: s)).complete⟩ := by
  obtain ⟨text, rest, cut⟩ := pieces_eq_cons none (c == '-') s
  have start : pieces none negative (c :: s) = ⟨negative, []⟩ :: pieces none (c == '-') s := by
    rcases sign with rfl | rfl <;> simp [pieces]
  have anew : under false (c :: s) = ofPieces (pieces none (c == '-') s) := by
    rcases sign with rfl | rfl
    · rw [under_plus]
      rfl
    · rw [under_minus]
      rfl
  have spaced : pieces none negative (gap ++ c :: s) =
      ⟨negative, gap⟩ :: pieces none (c == '-') s := by
    induction gap with
    | nil => exact start
    | cons b gap ih =>
        obtain ⟨first, later⟩ := Bool.and_eq_true_iff.1 blank
        obtain ⟨after, step, same⟩ := pieces_blank first none negative (gap ++ c :: s)
        rw [List.cons_append, step, same rfl, ih later]
        rfl
  have shown : allBlank (w ++ gap) = false := by
    obtain ⟨d, tail, rfl⟩ := List.exists_cons_of_ne_nil worded.nonempty
    simp [allBlank, worded.solid d (List.mem_cons_self ..)]
  have trimmed : trim (w ++ gap) = w := trim_append_blank worded.solid.tight worded.nonempty blank
  rw [anew, under, pieces_append worded.chars, spaced, foldr_onFirst, cut]
  simp [ofPieces, shown, trimmed]

end Terms

end Asm86.Source
