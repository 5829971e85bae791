/-
# Asm86.Proofs.Source.QuotedCharacter -- terms with a character in quotes

`around u q c v` is a text with the character `c` between two quotes `q`.  A sum is cut at its
signs, so that as long as `c` is no sign to the reader (`Inert`), the quoted character is part of one
term, the same for every `c` (`ofText_around`).  By itself it is a number there, and in a longer
term it makes the term a bad one (`Expr.addTerm_around`).  So two sums that differ in a quoted
character come to constants that differ by the codes (`foldText_around`).
-/
import Asm86.Proofs.Source.Shift
import Asm86.Proofs.Source.Signs

namespace Asm86.Source

open Asm86.Text
open Asm86.Machine

set_option autoImplicit false

/-- A text with a quoted character in it. -/
def around (u : List Char) (q c : Char) (v : List Char) : List Char := u ++ q :: c :: q :: v

/-- A character that stands for its code in quotes and is no syntax outside them.  Double quotes do
not protect a sign. -/
structure Inert (q c : Char) : Prop where
  ascii : c.toNat < 128
  unquoted : isQuote c = false
  opening : c ≠ '['
  sign : q = '\x22' → c ≠ '+' ∧ c ≠ '-'

section

variable {q : Char} {u v : List Char}

theorem mem_around (u : List Char) (q c : Char) (v : List Char) : q ∈ around u q c v := by
  simp [around]

theorem quote_isBlank (quote : isQuote q = true) : isBlank q = false := by
  rcases isQuote_cases quote with rfl | rfl <;> decide

theorem quote_foreign (quote : isQuote q = true) : q.toUpper.isAlpha = false := by
  rcases isQuote_cases quote with rfl | rfl <;> decide

theorem trim_around (quote : isQuote q = true) (u : List Char) (c : Char) (v : List Char) :
    trim (around u q c v) = around (trimStart u) q c (trimEnd v) := by
  have split : trimStart u ++ q :: c :: q :: v = (trimStart u ++ [q, c]) ++ q :: v := by simp
  rw [around, trim, trimStart_append (quote_isBlank quote), split,
    trimEnd_append (quote_isBlank quote), around]
  simp

/-! ## Terms -/

/-- The pieces of a text, up to where something stands behind it. -/
theorem pieces_front (single : ∀ c ∈ u, isSingleQuote c = false) (flat : '[' ∉ u)
    (negative : Bool) :
    ∃ (ps : List Term) (a : List Char), ∀ rest, pieces none negative (u ++ rest) =
      ps ++ a.foldr Term.onFirst (pieces none ((signs u).getLast?.getD negative) rest) := by
  induction u generalizing negative with
  | nil => exact ⟨[], [], fun rest => rfl⟩
  | cons c u ih =>
      obtain ⟨first, later⟩ := List.forall_mem_cons.1 single
      obtain ⟨other, flat⟩ := not_or.1 (List.mem_cons.not.1 flat)
      by_cases sign : c = '+' ∨ c = '-'
      · obtain ⟨ps, a, cut⟩ := ih later flat (c == '-')
        refine ⟨⟨negative, []⟩ :: ps, a, fun rest => ?_⟩
        have signed : signs (c :: u) = (c == '-') :: signs u := by
          rcases sign with rfl | rfl <;> rfl
        have step : pieces none negative (c :: (u ++ rest)) =
            ⟨negative, []⟩ :: pieces none (c == '-') (u ++ rest) := by
          rcases sign with rfl | rfl <;> simp [pieces]
        rw [List.cons_append, step, cut, signed, List.getLast?_cons]
        rfl
      · obtain ⟨plus, minus⟩ := not_or.1 sign
        obtain ⟨ps, a, cut⟩ := ih later flat negative
        have unsigned : signs (c :: u) = signs u := by
          simp [signs, plus, minus, Ne.symm other]
        have step : ∀ rest, pieces none negative (c :: u ++ rest) =
            Term.onFirst c (ps ++ a.foldr Term.onFirst
              (pieces none ((signs (c :: u)).getLast?.getD negative) rest)) := fun rest => by
          rw [List.cons_append, pieces_plain plus minus first, cut, unsigned]
        cases ps with
        | nil => exact ⟨[], c :: a, step⟩
        | cons p ps => exact ⟨Term.onFirst c (p :: ps), a, step⟩

/-- The quoted character is part of one piece. -/
theorem pieces_around (quote : isQuote q = true) (single : ∀ c ∈ u, isSingleQuote c = false)
    (flat : '[' ∉ u) (v : List Char) :
    ∃ ps a b rest, ∀ c, Inert q c →
      pieces none false (around u q c v) = ps ++ ⟨endsInMinus u, around a q c b⟩ :: rest := by
  obtain ⟨ps, a, cut⟩ := pieces_front single flat false
  obtain ⟨b, rest, last⟩ := pieces_eq_cons none (endsInMinus u) v
  refine ⟨ps, a, b, rest, fun c inert => ?_⟩
  have inside : pieces none (endsInMinus u) (q :: c :: q :: v) =
      [q, c, q].foldr Term.onFirst (pieces none (endsInMinus u) v) := by
    rcases isQuote_cases quote with rfl | rfl
    · have other : c ≠ '\x27' := by
        rintro rfl
        exact absurd inert.unquoted (by decide)
      simp [pieces, quoteAfter, isSingleQuote, other]
    · have plain : isSingleQuote c = false := (Bool.or_eq_false_iff.1 inert.unquoted).1
      obtain ⟨plus, minus⟩ := inert.sign rfl
      rw [pieces_plain (by decide) (by decide) (by decide), pieces_plain plus minus plain,
        pieces_plain (by decide) (by decide) (by decide)]
      rfl
  rw [around, cut]
  change ps ++ a.foldr Term.onFirst (pieces none (endsInMinus u) _) = _
  rw [inside, last, foldr_onFirst, foldr_onFirst]
  rfl

namespace Terms

theorem ofPieces_before {p : Term} {ps : List Term} {next : Bool}
    (head : ps.head?.map Term.negative = some next) :
    ofPieces (p :: ps) =
      if allBlank p.text then if p.negative && next then ⟨[], false⟩ else ofPieces ps
      else ⟨⟨p.negative, trim p.text⟩ :: (ofPieces ps).terms, (ofPieces ps).complete⟩ := by
  cases ps with
  | nil => cases head
  | cons p' ps =>
      cases head
      rfl

/-- A piece that is not blank is a term by itself, unless the text is given up before it. -/
theorem ofPieces_around (ps : List Term) (sign : Bool) (rest : List Term) :
    (∃ ts, ∀ text, allBlank text = false →
      ofPieces (ps ++ ⟨sign, text⟩ :: rest) = ⟨ts, false⟩) ∨
    ∃ ts ts' complete, ∀ text, allBlank text = false →
      ofPieces (ps ++ ⟨sign, text⟩ :: rest) = ⟨ts ++ ⟨sign, trim text⟩ :: ts', complete⟩ := by
  induction ps with
  | nil =>
      cases rest with
      | nil => exact .inr ⟨[], [], true, fun text shown => by simp [ofPieces, shown]⟩
      | cons p rest =>
          exact .inr ⟨[], (ofPieces (p :: rest)).terms, (ofPieces (p :: rest)).complete,
            fun text shown => by simp [ofPieces, shown]⟩
  | cons p ps ih =>
      obtain ⟨next, head⟩ : ∃ next, ∀ text,
          (ps ++ ⟨sign, text⟩ :: rest).head?.map Term.negative = some next := by
        cases ps with
        | nil => exact ⟨sign, fun _ => rfl⟩
        | cons p' ps => exact ⟨p'.negative, fun _ => rfl⟩
      simp only [List.cons_append, ofPieces_before (head _)]
      by_cases blank : allBlank p.text = true
      · by_cases doubled : (p.negative && next) = true
        · exact .inl ⟨[], fun text _ => by rw [if_pos blank, if_pos doubled]⟩
        · simp only [blank, doubled, Bool.false_eq_true, ↓reduceIte]
          exact ih
      · simp only [blank, Bool.false_eq_true, ↓reduceIte]
        rcases ih with ⟨ts, given⟩ | ⟨ts, ts', complete, found⟩
        · exact .inl ⟨⟨p.negative, trim p.text⟩ :: ts, fun text shown => by rw [given text shown]⟩
        · exact .inr ⟨⟨p.negative, trim p.text⟩ :: ts, ts', complete, fun text shown => by
            rw [found text shown, List.cons_append]⟩

/-- The quoted character is part of one term. -/
theorem ofText_around (quote : isQuote q = true) (single : ∀ c ∈ u, isSingleQuote c = false)
    (flat : '[' ∉ u) (v : List Char) :
    (∃ ts, ∀ c, Inert q c → ofText (around u q c v) = ⟨ts, false⟩) ∨
      ∃ ts a b ts' complete, ∀ c, Inert q c → ofText (around u q c v) =
        ⟨ts ++ ⟨endsInMinus u, around a q c b⟩ :: ts', complete⟩ := by
  obtain ⟨ps, a, b, rest, cut⟩ := pieces_around quote single flat v
  have shown : ∀ c, allBlank (around a q c b) = false := fun c => by
    simp [allBlank, around, quote_isBlank quote]
  rcases ofPieces_around ps (endsInMinus u) rest with ⟨ts, given⟩ | ⟨ts, ts', complete, found⟩
  · refine .inl ⟨ts, fun c inert => ?_⟩
    rw [ofText, cut c inert, given _ (shown c)]
  · refine .inr ⟨ts, trimStart a, trimEnd b, ts', complete, fun c inert => ?_⟩
    rw [ofText, cut c inert, found _ (shown c), trim_around quote]

end Terms

/-! ## The term with the quoted character -/

/-- No numeral has a quote in it. -/
theorem readNumeral?_quote (quote : isQuote q = true) {s : List Char} (member : q ∈ s) :
    readNumeral? s = none := by
  cases read : readNumeral? s with
  | none => rfl
  | some v =>
      rw [(shown_of_isNumeralChar (isNumeralChar_of_readNumeral? read q member)).2] at quote
      cases quote

theorem literal?_quoted (quote : isQuote q = true) {a b : List Char}
    (alone : trimStart a = [] ∧ trimEnd b = []) {c : Char} (inert : Inert q c) :
    literal? (around a q c b) = some (c.toNat : Int) := by
  have trimmed : trim (around a q c b) = [q, c, q] := by
    rw [trim_around quote, alone.1, alone.2]
    rfl
  simp [literal?, trimmed, quotedCode?, quote, inert.ascii]

/-- A quoted character is no part of a longer literal. -/
theorem literal?_around (quote : isQuote q = true) {a b : List Char}
    (more : ¬ (trimStart a = [] ∧ trimEnd b = [])) (c : Char) : literal? (around a q c b) = none := by
  have long : 3 < (around (trimStart a) q c (trimEnd b)).length := by
    rw [← List.length_eq_zero_iff, ← List.length_eq_zero_iff] at more
    simp only [around, List.length_append, List.length_cons]
    omega
  have member : q ∈ around (trimStart a) q c (trimEnd b) := mem_around ..
  simp only [literal?, trim_around quote]
  generalize around (trimStart a) q c (trimEnd b) = s at long member
  have unquoted : quotedCode? s = none := by
    unfold quotedCode?
    split
    · simp at long
    · rfl
  have lowered : q ∈ lower s := by
    have same : q.toLower = q := by rcases isQuote_cases quote with rfl | rfl <;> decide
    exact same ▸ List.mem_map_of_mem member
  rw [unquoted]
  cases s with
  | nil => rfl
  | cons d s =>
      simp only [readNumeral?_quote quote lowered, ite_self]

/-- What a constant grows by when the quoted character under a sign is changed. -/
def codeShift (negative : Bool) (c d : Char) : Int :=
  if negative then (c.toNat : Int) - d.toNat else (d.toNat : Int) - c.toNat

variable {c d : Char}

theorem Expr.addTerm_around (quote : isQuote q = true) (inertC : Inert q c) (inertD : Inert q d)
    (e : Expr) (sign : Bool) (a b : List Char) :
    Carried (Expr.Shifted (codeShift sign c d)) (e.addTerm ⟨sign, around a q c b⟩)
      (e.addTerm ⟨sign, around a q d b⟩) := by
  by_cases alone : trimStart a = [] ∧ trimEnd b = []
  · have inside : ∀ {x}, Inert q x → Range.checked64 (if sign then -(x.toNat : Int) else x.toNat) =
        some (if sign then -(x.toNat : Int) else x.toNat) := by
      intro x inert
      have small := inert.ascii
      refine Range.checked64_some.2 ⟨?_, rfl⟩
      simp only [Range.signed64, Bool.and_eq_true, decide_eq_true_eq]
      split <;> omega
    rw [Expr.addTerm_literal (t := ⟨sign, around a q c b⟩) (literal?_quoted quote alone inertC)
        (inside inertC),
      Expr.addTerm_literal (t := ⟨sign, around a q d b⟩) (literal?_quoted quote alone inertD)
        (inside inertD)]
    refine Expr.settle_shifted ?_ e _ _
    unfold codeShift
    split <;> omega
  · have unnamed : ∀ x, isIdentifier (around a q x b) = false := by
      intro x
      rw [← Bool.not_eq_true]
      intro identifier
      have name := isNameChar_of_isIdentifier identifier q (mem_around ..)
      rcases isQuote_cases quote with rfl | rfl <;> exact absurd name (by decide)
    simp only [Expr.addTerm, literal?_around quote alone, unnamed, Bool.false_and, Bool.false_eq_true,
      ↓reduceIte]
    exact .neither _ _

theorem unreserved_around (quote : isQuote q = true) (a : List Char) (x : Char) (b : List Char) :
    Unreserved (around a q x b) :=
  Unreserved.of_mem (mem_around ..) (quote_foreign quote)

theorem MemoryRef.addTerm_around (quote : isQuote q = true) (inertC : Inert q c)
    (inertD : Inert q d) (m : MemoryRef) (sign : Bool) (a b : List Char) :
    Carried (MemoryRef.Shifted (codeShift sign c d)) (m.addTerm ⟨sign, around a q c b⟩)
      (m.addTerm ⟨sign, around a q d b⟩) := by
  rw [addTerm_disp (unreserved_around quote a c b).register_none,
    addTerm_disp (unreserved_around quote a d b).register_none]
  refine (Expr.addTerm_around quote inertC inertD m.disp sign a b).map fun disp disp' shifted => ?_
  rw [MemoryRef.Shifted, shifted]

/-- Terms are taken in alike where the term with the quoted character is. -/
theorem foldText_around {α : Type} {step : α → Term → Except ParseError α} {R : α → α → Prop}
    (kept : ∀ a b t, R a b → Carried R (step a t) (step b t)) (quote : isQuote q = true)
    (inertC : Inert q c) (inertD : Inert q d) (single : ∀ x ∈ u, isSingleQuote x = false)
    (flat : '[' ∉ u)
    (own : ∀ s a b, Carried R (step s ⟨endsInMinus u, around a q c b⟩)
      (step s ⟨endsInMinus u, around a q d b⟩)) (start : α) (v : List Char) :
    Carried R (Terms.foldText step start (around u q c v))
      (Terms.foldText step start (around u q d v)) := by
  unfold Terms.foldText
  rcases Terms.ofText_around quote single flat v with ⟨ts, given⟩ | ⟨ts, a, b, ts', complete, found⟩
  · simp only [given c inertC, given d inertD]
    cases ts.foldlM step start with
    | error e => exact .neither e e
    | ok s => exact .neither _ _
  · simp only [found c inertC, found d inertD, List.foldlM_append, List.foldlM_cons, bind_assoc]
    cases ts.foldlM step start with
    | error e => exact .neither e e
    | ok s =>
        refine (own s a b).bind fun s₁ s₂ related => (Carried.foldlM kept ts' related).bind ?_
        intro s₁ s₂ related
        cases complete with
        | true => exact .both related
        | false => exact .neither _ _

end

end Asm86.Source
