/-
# Asm86.Proofs.Source.SpacedLines -- gaps in lines

Two lines that differ in their gaps outside quotes are read alike (`Line.parse_respaced`): both are
refused, or both have the same label and the same statement.  Words and items are cut at the same
places (`Respaced.splitWord`, `Respaced.splitItems`), and what stands in them is read alike
(`Respaced.parseOperand`, `Respaced.parseItem`).

Data is where a gap can count.  The count of a repetition ends at a plain blank before DUP and
at no other blank, so that a tab in its place makes the line unreadable (`tab_before_dup`).  A string
is what stands between the first and the last quote of an item, so that one with its own quote inside
keeps the gaps there (`DataItem.Respaced`).
-/
import Asm86.Proofs.Source.Leads
import Asm86.Proofs.Source.Spacing

namespace Asm86.Source

open Asm86.Text
open Asm86.Machine

set_option autoImplicit false

variable {dup : Prop} {s t : List Char}

/-! ## Items -/

/-- Every item is a part of the list that it is cut from, the first one its beginning. -/
theorem cutItems_parts (quote : Option Char) (depth : Int) (s : List Char) :
    ∃ first rest, cutItems quote depth s = first :: rest ∧ first <+: s ∧
      ∀ item ∈ rest, item <:+: s := by
  induction s generalizing quote depth with
  | nil => exact ⟨[], [], rfl, List.prefix_rfl, fun _ member => absurd member List.not_mem_nil⟩
  | cons c s ih =>
      have longer : ∀ {item : List Char}, item <:+: s → item <:+: c :: s :=
        fun inside => inside.trans (List.suffix_cons c s).isInfix
      by_cases comma : (quote.isNone && c == ',' && depth == 0) = true
      · obtain ⟨first, rest, cut, start, later⟩ := ih none depth
        refine ⟨[], first :: rest, by rw [cutItems, if_pos comma, cut], List.nil_prefix, ?_⟩
        exact List.forall_mem_cons.2
          ⟨longer start.isInfix, fun item member => longer (later item member)⟩
      · obtain ⟨first, rest, cut, start, later⟩ :=
          ih (quoteAfter isQuote quote c) (depthAfter quote depth c)
        refine ⟨c :: first, rest, by rw [cutItems, if_neg comma, cut]; rfl, ?_,
          fun item member => longer (later item member)⟩
        exact List.cons_prefix_cons.2 ⟨rfl, start⟩

theorem cutItems_gap {w : List Char} (gap : Gap w) (depth : Int) (s : List Char) :
    cutItems none depth (w ++ s) = w.foldr onFirstItem (cutItems none depth s) := by
  have level : w.foldl (depthAfter none) depth = depth := by
    have flat : ∀ c ∈ w, depthAfter none depth c = depth := by
      intro c member
      apply depthAfter_flat
      intro bracket
      have space := gap.spaces c member
      simp only [List.mem_cons, List.not_mem_nil, or_false] at bracket
      rcases bracket with rfl | rfl | rfl | rfl <;> exact absurd space (by decide)
    clear gap
    induction w with
    | nil => rfl
    | cons c w ih =>
        obtain ⟨first, later⟩ := List.forall_mem_cons.1 flat
        rw [List.foldl_cons, first, ih later]
  rw [cutItems_append, level]
  intro c member
  have plain := plain_of_isBlank (isBlank_of_isSpace (gap.spaces c member))
  exact ⟨plain.1, plain.2.1, ne_of_mem_of_not_mem member (gap.not_mem (by decide))⟩

namespace Respaced

theorem cutItems {quote : Option Char} (quoting : Quoting isQuote quote)
    (respaced : Respaced dup quote s t) (depth : Int) :
    ∃ a as b bs, cutItems quote depth s = a :: as ∧ cutItems quote depth t = b :: bs ∧
      Respaced dup quote a b ∧ List.Forall₂ (Respaced dup none) as bs := by
  induction respaced generalizing depth with
  | nil quote => exact ⟨[], [], [], [], rfl, rfl, .nil quote, .nil⟩
  | @char quote s t c later ih =>
      obtain ⟨a, as, b, bs, left, right, first, others⟩ :=
        ih (quoting.after c) (depthAfter quote depth c)
      by_cases comma : (quote.isNone && c == ',' && depth == 0) = true
      · have shape : quote = none ∧ c = ',' := by
          simp only [Bool.and_eq_true, Option.isNone_iff_eq_none, beq_iff_eq] at comma
          exact comma.1
        obtain ⟨rfl, rfl⟩ := shape
        have stays : depthAfter none depth ',' = depth := depthAfter_flat (by decide) depth
        rw [stays] at left right
        refine ⟨[], a :: as, [], b :: bs, ?_, ?_, .nil none, .cons first others⟩
        · rw [Source.cutItems, if_pos comma]
          exact congrArg _ left
        · rw [Source.cutItems, if_pos comma]
          exact congrArg _ right
      · refine ⟨c :: a, as, c :: b, bs, ?_, ?_, .char c first, others⟩
        · rw [Source.cutItems, if_neg comma, left]
          rfl
        · rw [Source.cutItems, if_neg comma, right]
          rfl
  | @gap w w' s t left right kept later ih =>
      obtain ⟨a, as, b, bs, one, one', first, others⟩ := ih quoting_none depth
      obtain ⟨front, rest, same, start, -⟩ := cutItems_parts none depth s
      have beginning : a <+: s := by
        rw [one] at same
        exact (List.cons.inj same).1 ▸ start
      refine ⟨w ++ a, as, w' ++ b, bs, ?_, ?_,
        .gap left right (fun asked starts => ?_) first, others⟩
      · rw [cutItems_gap left, one, foldr_onFirstItem]
      · rw [cutItems_gap right, one', foldr_onFirstItem]
      · exact kept asked (startsDup_of_isPrefix beginning starts)

/-- Lists are cut into items at the same commas. -/
theorem splitItems (respaced : Respaced dup none s t) :
    List.Forall₂ (Respaced dup none) (splitItems s) (splitItems t) := by
  obtain ⟨a, as, b, bs, left, right, first, others⟩ := respaced.cutItems quoting_none 0
  unfold Source.splitItems
  rw [left, right]
  cases others with
  | nil =>
      simp only [← first.allBlank_eq]
      split
      · exact .nil
      · exact .cons (first.trim quoting_none) .nil
  | @cons a' b' as bs next more =>
      refine .cons (first.trim quoting_none) (.cons (next.trim quoting_none) ?_)
      exact List.forall₂_map_left_iff.2 (List.forall₂_map_right_iff.2
        (more.imp fun _ _ item => item.trim quoting_none))

end Respaced

theorem splitItems_parts {item : List Char} (member : item ∈ splitItems s) : item <:+: s := by
  have trimmed : ∀ x : List Char, x <:+: s → trim x <:+: s := fun x => (trim_part x).trans
  obtain ⟨first, rest, cut, start, later⟩ := cutItems_parts none 0 s
  have parts : ∀ x ∈ first :: rest, x <:+: s := List.forall_mem_cons.2 ⟨start.isInfix, later⟩
  unfold splitItems at member
  rw [cut] at member
  split at member
  · rename_i only same
    split at member
    · cases member
    · rw [List.mem_singleton.1 member]
      exact trimmed only (parts only (same ▸ List.mem_singleton_self only))
  · obtain ⟨x, inside, rfl⟩ := List.mem_map.1 member
    exact trimmed x (parts x inside)

/-- Items that are read alike one by one are read alike together. -/
theorem mapM_respaced {α : Type} {read : List Char → Except ParseError α} {Alike : α → α → Prop}
    (step : ∀ {a b : List Char} {y : α}, Respaced dup none a b → QuotesLast a → read a = .ok y →
      ∃ y', read b = .ok y' ∧ Alike y y')
    {items items' : List (List Char)} (related : List.Forall₂ (Respaced dup none) items items')
    (last : ∀ a ∈ items, QuotesLast a) {ys : List α} (all : items.mapM read = .ok ys) :
    ∃ ys', items'.mapM read = .ok ys' ∧ List.Forall₂ Alike ys ys' := by
  rw [Checked.mapM_eq_ok] at all
  induction related generalizing ys with
  | nil =>
      cases all
      exact ⟨[], rfl, .nil⟩
  | cons first _ ih =>
      cases all with
      | cons one others =>
          obtain ⟨lastFirst, lastOthers⟩ := List.forall_mem_cons.1 last
          obtain ⟨y', one', alike⟩ := step first lastFirst one
          obtain ⟨ys', others', alikes⟩ := ih lastOthers others
          exact ⟨y' :: ys', by simp only [List.mapM_cons, one', others']; rfl, .cons alike alikes⟩

/-! ## Strings -/

theorem quotedBytes?_eq_some {bytes : List UInt8} :
    quotedBytes? s = some bytes ↔ ∃ q text, isQuote q = true ∧ s = q :: (text ++ [q]) ∧
      bytes = Bytes.ofString (String.ofList text) := by
  constructor
  · intro quoted
    unfold quotedBytes? at quoted
    split at quoted
    · rename_i q c rest
      split at quoted
      · rename_i ends
        obtain ⟨quote, last⟩ := Bool.and_eq_true_iff.1 ends
        obtain ⟨text, shown⟩ := List.getLast?_eq_some_iff.1 (beq_iff_eq.1 last)
        rw [shown, List.dropLast_concat] at quoted
        exact ⟨q, text, quote, by rw [shown], (Option.some.inj quoted).symm⟩
      · cases quoted
    · cases quoted
  · rintro ⟨q, text, quote, rfl, rfl⟩
    obtain ⟨c, rest, shown⟩ := List.exists_cons_of_ne_nil (List.append_ne_nil_of_right_ne_nil text
      (List.cons_ne_nil q []))
    rw [shown, quotedBytes?, ← shown]
    simp [quote]

theorem length_le_byteLength (s : List Char) : s.length ≤ byteLength s := by
  induction s with
  | nil => exact Nat.le_refl 0
  | cons c s ih =>
      have one := Char.utf8Size_pos c
      show s.length + 1 ≤ c.utf8Size + byteLength s
      omega

namespace Respaced

/-- Inside quotes that no quote closes nothing changes. -/
theorem eq_of_unclosed {q : Char} (respaced : Respaced dup (some q) s t) (unclosed : q ∉ s) :
    t = s := by
  induction s generalizing t with
  | nil => exact respaced.nil_left
  | cons c s ih =>
      obtain ⟨other, later⟩ := not_or.1 (List.mem_cons.not.1 unclosed)
      obtain ⟨t', rfl, behind⟩ := respaced.cons_quoted
      rw [show quoteAfter isQuote (some q) c = some q by simp [quoteAfter, Ne.symm other]] at behind
      rw [ih behind later]

/-- Nor does anything in a text of one character. -/
theorem eq_of_short {q : Char} (respaced : Respaced dup (some q) s t) (short : s.length ≤ 1) :
    t = s := by
  cases s with
  | nil => exact respaced.nil_left
  | cons c s =>
      obtain ⟨t', rfl, behind⟩ := respaced.cons_quoted
      have empty : s = [] := List.eq_nil_of_length_eq_zero (by rw [List.length_cons] at short; omega)
      rw [empty] at behind ⊢
      rw [behind.nil_left]

theorem quoted {q : Char} {text : List Char} (quote : isQuote q = true)
    (respaced : Respaced dup none (q :: (text ++ [q])) t) :
    ∃ text', t = q :: (text' ++ [q]) ∧ Respaced dup (some q) text text' := by
  have shown := isSpace_of_quote quote
  obtain ⟨t', rfl, behind⟩ := respaced.cons_left shown
  rw [quoteAfter_quote quote] at behind
  obtain ⟨text', rfl, inside⟩ := behind.concat_left shown
  exact ⟨text', rfl, inside⟩

/-- A string is one with other gaps too, with what stands between the outer quotes. -/
theorem stringItem? (respaced : Respaced dup none s t) {bytes : List UInt8}
    (string : stringItem? s = some bytes) :
    ∃ q text text', isQuote q = true ∧ Respaced dup (some q) text text' ∧
      bytes = Bytes.ofString (String.ofList text) ∧
      stringItem? t = some (Bytes.ofString (String.ofList text')) := by
  unfold Source.stringItem? at string ⊢
  rw [Option.ite_none_right_eq_some, Bool.or_eq_true, decide_eq_true_eq] at string
  obtain ⟨long, quoted⟩ := string
  obtain ⟨q, text, quote, rfl, rfl⟩ := quotedBytes?_eq_some.1 quoted
  obtain ⟨text', rfl, inside⟩ := respaced.quoted quote
  refine ⟨q, text, text', quote, inside, rfl, ?_⟩
  rw [if_pos, quotedBytes?_eq_some.2 ⟨q, text', quote, rfl, rfl⟩]
  rw [Bool.or_eq_true, decide_eq_true_eq]
  refine long.imp_left fun large => ?_
  -- A text of at most three bytes has no room for a gap.
  by_contra small
  have length := length_le_byteLength (q :: (text' ++ [q]))
  rw [List.length_cons, List.length_append, List.length_singleton] at length
  have short : text'.length ≤ 1 := by omega
  rw [inside.symm.eq_of_short short] at large
  exact small large

end Respaced

/-! ## Repetitions -/

theorem eq_blank_of_toUpper {c : Char} (blank : c.toUpper = ' ') : c = ' ' := by
  have lowered : c.toLower = ' ' := by
    rw [← Char.toLower_toUpper_eq_toLower, blank]
    decide
  by_cases small : c.isLower = true
  · have other : ¬ c.isUpper = true := by
      simp only [Char.isUpper, Char.isLower, Bool.and_eq_true, decide_eq_true_eq, ge_iff_le,
        UInt32.le_iff_toNat_le] at small ⊢
      change 97 ≤ c.val.toNat ∧ _ at small
      change ¬ (_ ∧ c.val.toNat ≤ 90)
      omega
    rwa [Char.toLower_eq_of_not_isUpper other] at lowered
  · rwa [Char.toUpper_eq_of_not_isLower small] at blank

/-- The search for a repetition takes a plain blank that DUP follows. -/
theorem cutDup?_cons (c : Char) (s : List Char) :
    cutDup? (c :: s) =
      if c = ' ' ∧ startsDup s = true then some ([], s.drop 3)
      else (cutDup? s).map fun parts => (c :: parts.1, parts.2) := by
  have found : (upper ((c :: s).take 4) == [' ', 'D', 'U', 'P']) = true ↔
      c = ' ' ∧ startsDup s = true := by
    rw [beq_iff_eq, startsDup, beq_iff_eq]
    show c.toUpper :: upper (s.take 3) = _ ↔ _
    rw [List.cons.injEq]
    refine and_congr_left fun _ => ⟨eq_blank_of_toUpper, ?_⟩
    rintro rfl
    decide
  rw [cutDup?]
  simp only [found, List.drop_succ_cons]

theorem cutDup?_gap {w : List Char} (gap : Gap w) (s : List Char) :
    cutDup? (w ++ s) =
      if w.getLast? = some ' ' ∧ startsDup s = true then some (w.dropLast, s.drop 3)
      else (cutDup? s).map fun parts => (w ++ parts.1, parts.2) := by
  obtain ⟨nonempty, spaces⟩ := gap
  induction w with
  | nil => exact absurd rfl nonempty
  | cons c w ih =>
      rw [List.cons_append, cutDup?_cons]
      cases w with
      | nil => simp
      | cons d w =>
          obtain ⟨-, later⟩ := List.forall_mem_cons.1 spaces
          -- DUP does not start inside of the gap.
          have inside : ¬ startsDup (d :: w ++ s) = true := by
            intro starts
            obtain ⟨a, b, c, rest, same, name, -⟩ := startsDup_cases starts
            have blank := isBlank_of_isSpace (later d (List.mem_cons_self ..))
            rw [(List.cons.inj same).1, isBlank_of_isNameChar name] at blank
            cases blank
          rw [if_neg fun found => inside found.2, ih (List.cons_ne_nil d w) later,
            List.getLast?_cons_cons, List.dropLast_cons_of_ne_nil (List.cons_ne_nil d w)]
          split
          · rfl
          · rw [Option.map_map]
            rfl

theorem eq_append_of_cutDup? {x y : List Char} (cut : cutDup? s = some (x, y)) :
    ∃ word, s = x ++ ' ' :: (word ++ y) ∧ startsDup word = true := by
  induction s generalizing x with
  | nil => cases cut
  | cons c s ih =>
      rw [cutDup?_cons] at cut
      split at cut
      · rename_i found
        obtain ⟨rfl, starts⟩ := found
        cases cut
        refine ⟨s.take 3, by rw [List.take_append_drop, List.nil_append], ?_⟩
        rwa [startsDup, List.take_take, Nat.min_self, ← startsDup]
      · obtain ⟨⟨x', y'⟩, later, same⟩ := Option.map_eq_some_iff.1 cut
        cases same
        obtain ⟨word, rfl, starts⟩ := ih later
        exact ⟨word, rfl, starts⟩

theorem allBlank_trimEnd (s : List Char) : allBlank (trimEnd s) = allBlank s := by
  rw [Bool.eq_iff_iff, Terms.allBlank_iff_trim, Terms.allBlank_iff_trim, trim_trimEnd]

namespace Respaced

/-- A repetition is found in both texts.  Of the gap before DUP the last blank is dropped, so that
the counts may differ in the blanks at their end. -/
theorem cutDup? {quote : Option Char} (quoting : Quoting isQuote quote)
    (respaced : Respaced True quote s t) {x y : List Char} (cut : cutDup? s = some (x, y)) :
    ∃ x' y', cutDup? t = some (x', y') ∧ Respaced True quote (Text.trimEnd x) (Text.trimEnd x') ∧
      Respaced True (quoteOver quote x) y y' := by
  induction respaced generalizing x with
  | nil quote => cases cut
  | @char quote s t c later ih =>
      rw [cutDup?_cons] at cut ⊢
      split at cut
      · rename_i found
        obtain ⟨rfl, starts⟩ := found
        cases cut
        obtain ⟨starts', behind⟩ := later.drop_dup starts
        have plain := quoting.plain (show isQuote ' ' = false by decide)
        rw [if_pos ⟨rfl, starts'⟩]
        refine ⟨[], t.drop 3, rfl, .nil quote, ?_⟩
        rw [plain] at behind
        exact behind quoting
      · rename_i absent
        obtain ⟨⟨x', y'⟩, found, same⟩ := Option.map_eq_some_iff.1 cut
        cases same
        obtain ⟨x'', y'', found', front, behind⟩ := ih (quoting.after c) found
        rw [if_neg fun both => absent ⟨both.1, (later.symm.drop_dup both.2).1⟩, found']
        refine ⟨c :: x'', y'', rfl, ?_, behind⟩
        have blank : allBlank (c :: x') = allBlank (c :: x'') := by
          have inner := front.allBlank_eq
          rw [allBlank_trimEnd, allBlank_trimEnd] at inner
          exact congrArg (isBlank c && ·) inner
        rw [trimEnd_cons, trimEnd_cons, ← blank]
        split
        · exact .nil quote
        · exact .char c front
  | @gap w w' s t left right kept later ih =>
      rw [cutDup?_gap left] at cut
      rw [cutDup?_gap right]
      split at cut
      · rename_i found
        cases cut
        obtain ⟨starts', behind⟩ := later.drop_dup found.2
        have ended : ∀ {w : List Char}, Gap w → allBlank w.dropLast = true := fun gap =>
          List.all_eq_true.2 fun c member =>
            isBlank_of_isSpace (gap.spaces c (List.dropLast_subset _ member))
        have nothing : ∀ {w : List Char}, Gap w → Text.trimEnd w.dropLast = [] :=
          fun gap => trimEnd_append_blank (ended gap) []
        rw [if_pos ⟨(kept trivial found.2).1 found.1, starts'⟩]
        refine ⟨w'.dropLast, t.drop 3, rfl, ?_, ?_⟩
        · rw [nothing left, nothing right]
          exact .nil none
        · rw [quoting_none.plain_all (isQuote_of_allBlank (ended left))]
          exact behind quoting_none
      · rename_i absent
        obtain ⟨⟨x', y'⟩, found, same⟩ := Option.map_eq_some_iff.1 cut
        cases same
        obtain ⟨x'', y'', found', front, behind⟩ := ih quoting_none found
        have absent' : ¬ (w'.getLast? = some ' ' ∧ startsDup t = true) := fun both =>
          have starts := (later.symm.drop_dup both.2).1
          absent ⟨(kept trivial starts).2 both.1, starts⟩
        rw [if_neg absent', found']
        refine ⟨w' ++ x'', y'', rfl, ?_, ?_⟩
        · have blank : allBlank x' = allBlank x'' := by
            have inner := front.allBlank_eq
            rwa [allBlank_trimEnd, allBlank_trimEnd] at inner
          rw [trimEnd_gap left, trimEnd_gap right, ← blank]
          split
          · exact .nil none
          · refine .gap left right (fun _ starts => kept trivial ?_) front
            obtain ⟨word, whole, -⟩ := eq_append_of_cutDup? found
            rw [whole]
            exact startsDup_append (startsDup_of_isPrefix (trimEnd_isPrefix x') starts) _
        · rwa [quoteOver_gap left]

theorem parenthesized? (respaced : Respaced dup none s t) {inner : List Char}
    (found : parenthesized? s = some inner) :
    ∃ inner', parenthesized? t = some inner' ∧ Respaced dup none inner inner' ∧ inner <:+: s := by
  unfold Source.parenthesized? at found
  split at found
  · rename_i rest
    split at found
    · rename_i last
      obtain ⟨text, rfl⟩ := List.getLast?_eq_some_iff.1 last
      rw [List.dropLast_concat] at found
      cases found
      obtain ⟨t', rfl, behind⟩ := respaced.cons_left (show isSpace '(' = false by decide)
      obtain ⟨inner', rfl, inside⟩ := behind.concat_left (show isSpace ')' = false by decide)
      refine ⟨inner', by simp [Source.parenthesized?], ?_, ⟨['('], [')'], by simp⟩⟩
      rwa [quoteAfter_plain (by decide)] at inside
    · cases found
  · cases found

theorem mark_eq (respaced : Respaced dup none s t) : (s == ['?']) = (t == ['?']) := by
  rw [Bool.eq_iff_iff, beq_iff_eq, beq_iff_eq]
  constructor
  · rintro rfl
    exact respaced.eq_of_solid (by decide)
  · rintro rfl
    exact respaced.symm.eq_of_solid (by decide)

theorem dupValue (respaced : Respaced dup none s t) (last : QuotesLast s) {e : Expr}
    (read : dupValue s = .ok e) : dupValue t = .ok e := by
  unfold Source.dupValue at read ⊢
  rw [← respaced.mark_eq]
  split at read
  · rename_i mark
    rwa [if_pos mark]
  · rename_i other
    rw [if_neg other]
    exact respaced.parseExpr last read

end Respaced

theorem literal?_congr (same : trim s = trim t) : literal? s = literal? t := by
  simp only [literal?, same]

theorem Readable.trimEnd (readable : Readable s) : Readable (trimEnd s) := by
  rwa [Readable, trim_trimEnd]

/-- A repetition that can be read is read the same with other gaps. -/
theorem Respaced.parseDup (respaced : Respaced True none s t) (last : QuotesLast s)
    {x y : List Char} (cut : Source.cutDup? s = some (x, y)) {item : DataItem}
    (read : Source.parseDup s x y = .ok item) :
    ∃ x' y', Source.cutDup? t = some (x', y') ∧ Source.parseDup t x' y' = .ok item := by
  obtain ⟨x', y', cut', front, behind⟩ := respaced.cutDup? quoting_none cut
  refine ⟨x', y', cut', ?_⟩
  obtain ⟨word, whole, starts⟩ := eq_append_of_cutDup? cut
  unfold Source.parseDup at read ⊢
  cases literal : literal? x with
  | none =>
      rw [literal] at read
      cases read
  | some n =>
      have readable : Readable x := .of_literal literal
      have same : Text.trim x = Text.trim x' := by
        have trimmed := readable.trimEnd.trim_eq front
        rw [trim_trimEnd, trim_trimEnd] at trimmed
        exact trimmed.symm
      have followed : Followed (' ' :: (word ++ y)) := by
        obtain ⟨a, b, c, rest, rfl, name, -⟩ := startsDup_cases starts
        have other : a ≠ ']' := by
          rintro rfl
          exact absurd name (by decide)
        have blank : allBlank [' '] = true := by decide
        exact (Followed.of_cons (isBlank_of_isNameChar name) other _).append blank
      rw [whole] at last
      rw [readable.closes fun q quote => last.trim_ne followed quote] at behind
      rw [← literal?_congr same, literal]
      simp only [literal] at read ⊢
      split at read
      · rename_i counted
        rw [if_pos counted]
        cases inside : Source.parenthesized? (Text.trim y) with
        | none =>
            rw [inside] at read
            cases read
        | some inner =>
            rw [inside] at read
            obtain ⟨e, value, rfl⟩ := Checked.map_eq_ok.1 read
            obtain ⟨inner', inside', related, part⟩ :=
              (behind.trim quoting_none).parenthesized? inside
            have lasting : QuotesLast (Text.trim inner) := by
              refine last.part (((trim_part inner).trans part).trans ((trim_part y).trans ?_))
              exact ⟨x ++ ' ' :: word, [], by simp⟩
            rw [inside']
            simp only [(related.trim quoting_none).dupValue lasting value]
            rfl
      · cases read

/-! ## Data -/

/-- An item and what it is with other gaps: the same, or a string with its own quote inside, in which
the gaps outside of the stretches that these quotes make are other ones. -/
inductive DataItem.Respaced : DataItem → DataItem → Prop where
  | same (item : DataItem) : Respaced item item
  | string {q : Char} {text text' : List Char} (quote : isQuote q = true) (inner : q ∈ text)
      (gaps : Source.Respaced False (some q) text text') :
      Respaced (.string (Bytes.ofString (String.ofList text)))
        (.string (Bytes.ofString (String.ofList text')))

/-- A statement and what it is with other gaps: the same but for strings in data. -/
inductive Statement.Respaced : Statement → Statement → Prop where
  | same (st : Statement) : Respaced st st
  | data (width : Width) {items items' : List DataItem}
      (alike : List.Forall₂ DataItem.Respaced items items') :
      Respaced (.data width items) (.data width items')

/-- Without strings nothing changes. -/
theorem Statement.Respaced.eq_of_plain {st st' : Statement} (alike : st.Respaced st')
    (plain : ∀ width items, st = .data width items → ∀ bytes, DataItem.string bytes ∉ items) :
    st' = st := by
  cases alike with
  | same => rfl
  | @data width items items' alike =>
      have absent := plain width items rfl
      have same : items' = items := by
        clear plain
        induction alike with
        | nil => rfl
        | cons first _ ih =>
            have later := ih fun bytes member => absent bytes (List.mem_cons_of_mem _ member)
            cases first with
            | same => rw [later]
            | string => exact absurd (List.mem_cons_self ..) (absent _)
      rw [same]

theorem Worded.of_dataWidth {width : Width} (directive : dataWidth? s = some width) : Worded s := by
  apply Worded.of_reserved
  intro free
  have bytes : isKeyword "DB" s = false := free "DB" (by decide)
  have words : isKeyword "DW" s = false := free "DW" (by decide)
  simp [dataWidth?, bytes, words] at directive

namespace Respaced

theorem parseNumericItem (respaced : Respaced True none s t) (last : QuotesLast s) {item : DataItem}
    (read : parseNumericItem s = .ok item) : parseNumericItem t = .ok item := by
  unfold Source.parseNumericItem at read ⊢
  cases cut : Source.cutDup? s with
  | some parts =>
      simp only [cut] at read
      obtain ⟨x', y', cut', read'⟩ := respaced.parseDup last cut read
      rw [cut']
      exact read'
  | none =>
      have uncut : Source.cutDup? t = none := by
        cases cut' : Source.cutDup? t with
        | none => rfl
        | some parts =>
            obtain ⟨x', y', found, -⟩ := respaced.symm.cutDup? quoting_none cut'
            rw [found] at cut
            cases cut
      rw [cut] at read
      rw [uncut]
      obtain ⟨e, parsed, rfl⟩ := Checked.map_eq_ok.1 read
      exact Checked.map_eq_ok.2 ⟨e, respaced.parseExpr last parsed, rfl⟩

/-- An item that can be read is read alike with other gaps. -/
theorem parseItem (respaced : Respaced True none s t) (last : QuotesLast s) {item : DataItem}
    (read : parseItem s = .ok item) :
    ∃ item', Source.parseItem t = .ok item' ∧ item.Respaced item' := by
  unfold Source.parseItem at read ⊢
  rw [← respaced.mark_eq]
  split at read
  · rename_i mark
    rw [if_pos mark]
    exact ⟨item, read, .same item⟩
  · rename_i other
    rw [if_neg other]
    cases string : Source.stringItem? s with
    | some bytes =>
        obtain ⟨q, text, text', quote, inside, rfl, string'⟩ := respaced.stringItem? string
        rw [string] at read
        cases read
        rw [string']
        refine ⟨_, rfl, ?_⟩
        by_cases inner : q ∈ text
        · exact .string quote inner (inside.mono False.elim)
        · rw [inside.eq_of_unclosed inner]
          exact .same _
    | none =>
        have plain : Source.stringItem? t = none := by
          cases string' : Source.stringItem? t with
          | none => rfl
          | some bytes =>
              obtain ⟨q, text, text', -, -, -, found⟩ := respaced.symm.stringItem? string'
              rw [found] at string
              cases string
        rw [string] at read
        rw [plain]
        exact ⟨item, respaced.parseNumericItem last read, .same item⟩

theorem parseData (respaced : Respaced True none s t) (last : QuotesLast s) {width : Width}
    {st : Statement} (read : parseData width s = .ok st) :
    ∃ st', Source.parseData width t = .ok st' ∧ st.Respaced st' := by
  have items := respaced.splitItems
  have lasting : ∀ item ∈ Source.splitItems s, QuotesLast item :=
    fun item member => last.part (splitItems_parts member)
  unfold Source.parseData at read ⊢
  cases left : Source.splitItems s with
  | nil =>
      rw [left] at read
      cases read
  | cons a as =>
      cases right : Source.splitItems t with
      | nil =>
          rw [left, right] at items
          cases items
      | cons b bs =>
          rw [left] at read items lasting
          rw [right] at items
          obtain ⟨found, all, rfl⟩ := Checked.map_eq_ok.1 read
          obtain ⟨found', all', alike⟩ := mapM_respaced
            (fun item last read => item.parseItem last read) items lasting all
          exact ⟨.data width found', Checked.map_eq_ok.2 ⟨found', all', rfl⟩, .data width alike⟩

/-! ## Instructions -/

/-- An instruction that can be read is read the same with other gaps. -/
theorem parseInstruction {word : List Char} {st : Statement}
    (read : parseInstruction word s = .ok st)
    (respaced : Respaced dup (quoteOver none word) s t) (last : QuotesLast s) :
    Source.parseInstruction word t = .ok st := by
  induction size : s.length using Nat.strong_induction_on generalizing word s t st with
  | _ n ih =>
    subst size
    rw [Source.parseInstruction] at read ⊢
    cases lookup : Operation.ofMnemonic? word with
    | none =>
        rw [lookup] at read
        cases read
    | some op =>
        rw [(worded_of_lookup lookup).quoteOver] at respaced
        have empty : s ≠ [] ↔ t ≠ [] := by
          refine not_congr ⟨?_, ?_⟩
          · rintro rfl
            exact respaced.nil_left
          · rintro rfl
            exact respaced.symm.nil_left
        simp only [lookup] at read ⊢
        split at read
        · rename_i lead
          rw [dif_pos ⟨lead.1, empty.1 lead.2⟩]
          obtain ⟨inner, parsed, rfl⟩ := Checked.map_eq_ok.1 read
          obtain ⟨same, behind⟩ := respaced.splitWord quoting_none
          rw [← same, ih _ (length_splitWord_lt lead.2) parsed behind
            (last.part (splitWord_part s)) rfl]
          rfl
        · rename_i single
          rw [dif_neg fun lead => single ⟨lead.1, empty.2 lead.2⟩]
          obtain ⟨operands, all, rfl⟩ := Checked.map_eq_ok.1 read
          obtain ⟨operands', all', alike⟩ := mapM_respaced
            (fun item last read => ⟨_, item.parseOperand last read, rfl⟩) respaced.splitItems
            (fun item member => last.part (splitItems_parts member)) all
          rw [List.forall₂_eq_eq_eq] at alike
          rw [all', ← alike]
          rfl

/-! ## Lines -/

theorem parseStatement {first : List Char} (respaced : Respaced dup (quoteOver none first) s t)
    (last : QuotesLast s) {st : Statement} (read : parseStatement first s = .ok st)
    (asked : ∀ width items, st = .data width items → dup) :
    ∃ st', Source.parseStatement first t = .ok st' ∧ st.Respaced st' := by
  unfold Source.parseStatement at read ⊢
  split at read
  · rename_i directive
    rw [if_pos directive]
    exact ⟨st, read, .same st⟩
  · rename_i other
    rw [if_neg other]
    cases width : dataWidth? first with
    | none =>
        rw [width] at read
        exact ⟨st, parseInstruction read respaced last, .same st⟩
    | some w =>
        rw [width] at read
        obtain ⟨items, rfl⟩ := parseData_data read
        rw [(Worded.of_dataWidth width).quoteOver] at respaced
        exact (respaced.mono fun _ => asked w items rfl).parseData last read

/-- A second word decides both lines or neither. -/
theorem parseNamed?_none {first : List Char} (respaced : Respaced dup (quoteOver none first) s t)
    (other : parseNamed? first s = none) : parseNamed? first t = none := by
  obtain ⟨same, -⟩ := respaced.splitWord (quoting_none.over_text first)
  unfold Source.parseNamed? at other ⊢
  dsimp only at other ⊢
  rw [← same]
  split at other
  · cases other
  · rename_i start
    rw [if_neg start]
    split at other
    · cases other
    · rename_i finish
      rw [if_neg finish]
      cases width : dataWidth? (Text.splitWord s).1 with
      | none => rfl
      | some w =>
          simp only [width] at other
          split at other <;> cases other

theorem parseNamed? {first : List Char} (respaced : Respaced dup (quoteOver none first) s t)
    (last : QuotesLast s) {label : Option String} {st : Statement}
    (read : parseNamed? first s = some (.ok ⟨label, st⟩))
    (asked : ∀ width items, st = .data width items → dup) :
    ∃ st', Source.parseNamed? first t = some (.ok ⟨label, st'⟩) ∧ st.Respaced st' := by
  obtain ⟨same, behind⟩ := respaced.splitWord (quoting_none.over_text first)
  unfold Source.parseNamed? at read ⊢
  dsimp only at read ⊢
  rw [← same]
  split at read
  · rename_i start
    rw [if_pos start]
    exact ⟨st, read, .same st⟩
  · rename_i unstarted
    rw [if_neg unstarted]
    split at read
    · rename_i finish
      rw [if_pos finish]
      exact ⟨st, read, .same st⟩
    · rename_i unfinished
      rw [if_neg unfinished]
      cases width : dataWidth? (Text.splitWord s).1 with
      | none =>
          rw [width] at read
          cases read
      | some w =>
          rw [width] at read
          simp only at read ⊢
          split at read
          · rename_i identifier
            obtain ⟨found, parsed, made⟩ := Checked.map_eq_ok.1 (Option.some.inj read)
            cases made
            obtain ⟨items, rfl⟩ := parseData_data parsed
            rw [(Worded.of_isIdentifier identifier).quoteOver, (Worded.of_dataWidth width).quoteOver]
              at behind
            obtain ⟨st', parsed', alike⟩ := (behind.mono fun _ => asked w items rfl).parseData
              (last.part (splitWord_part s)) parsed
            rw [if_pos identifier]
            exact ⟨st', congrArg some (Checked.map_eq_ok.2 ⟨st', parsed', rfl⟩), alike⟩
          · cases read

theorem parseBody (respaced : Respaced dup none s t) (last : QuotesLast s)
    {label label' : Option String} {st : Statement} (read : parseBody label s = .ok ⟨label', st⟩)
    (asked : ∀ width items, st = .data width items → dup) :
    ∃ st', Source.parseBody label t = .ok ⟨label', st'⟩ ∧ st.Respaced st' := by
  obtain ⟨same, behind⟩ := respaced.splitWord quoting_none
  have lasting : QuotesLast (Text.splitWord s).2 := last.part (splitWord_part s)
  by_cases blank : s = []
  · rw [blank] at respaced read
    rw [respaced.nil_left]
    exact ⟨st, read, .same st⟩
  · have blank' : t ≠ [] := by
      rintro rfl
      exact blank respaced.symm.nil_left
    simp only [Source.parseBody, List.isEmpty_iff, blank, blank', ↓reduceIte, ← same] at read ⊢
    have plain : ∀ {st₀ : Statement},
        Source.parseStatement (Text.splitWord s).1 (Text.splitWord s).2 = .ok st₀ → (⟨label, st₀⟩ : Line) = ⟨label', st⟩ →
        ∃ st', (Source.parseStatement (Text.splitWord s).1 (Text.splitWord t).2).map
          (fun st => (⟨label, st⟩ : Line)) = .ok ⟨label', st'⟩ ∧ st.Respaced st' := by
      intro st₀ parsed made
      cases made
      obtain ⟨st', parsed', alike⟩ := behind.parseStatement lasting parsed asked
      exact ⟨st', Checked.map_eq_ok.2 ⟨st', parsed', rfl⟩, alike⟩
    cases unlabelled : label.isNone with
    | false =>
        simp only [unlabelled, Bool.false_eq_true, ↓reduceIte] at read ⊢
        obtain ⟨st₀, parsed, made⟩ := Checked.map_eq_ok.1 read
        exact plain parsed made
    | true =>
        simp only [unlabelled, ↓reduceIte] at read ⊢
        cases named : Source.parseNamed? (Text.splitWord s).1 (Text.splitWord s).2 with
        | none =>
            rw [named] at read
            rw [behind.parseNamed?_none named]
            obtain ⟨st₀, parsed, made⟩ := Checked.map_eq_ok.1 read
            exact plain parsed made
        | some line =>
            rw [named] at read
            simp only at read
            rw [read] at named
            obtain ⟨st', named', alike⟩ := behind.parseNamed? lasting named asked
            rw [named']
            exact ⟨st', rfl, alike⟩

theorem splitLabel (respaced : Respaced dup none s t) :
    (splitLabel s).1 = (splitLabel t).1 ∧
      Respaced dup none (splitLabel s).2 (splitLabel t).2 := by
  cases cut : Text.cutAt? ':' s with
  | none =>
      simp only [Source.splitLabel, cut, respaced.cutAt?_none (by decide) cut]
      exact ⟨trivial, respaced⟩
  | some parts =>
      obtain ⟨before, after⟩ := parts
      obtain ⟨before', after', cut', front, behind⟩ := respaced.cutAt? (by decide) cut
      have trimmed := front.trim quoting_none
      simp only [Source.splitLabel, cut, cut']
      split
      · rename_i named
        have word := Worded.of_isIdentifier (Bool.and_eq_true_iff.1 named).1
        rw [← quoteOver_trim, word.quoteOver] at behind
        rw [trimmed.eq_of_solid word.solid, if_pos named]
        exact ⟨rfl, behind.trim quoting_none⟩
      · rename_i unnamed
        rw [if_neg]
        · exact ⟨rfl, respaced⟩
        · intro named
          have word := Worded.of_isIdentifier (Bool.and_eq_true_iff.1 named).1
          rw [trimmed.symm.eq_of_solid word.solid] at unnamed
          exact unnamed named

end Respaced

theorem splitLabel_part (s : List Char) : (splitLabel s).2 <:+: s := by
  cases cut : cutAt? ':' s with
  | none =>
      simp only [splitLabel, cut]
      exact List.infix_rfl
  | some parts =>
      obtain ⟨before, after⟩ := parts
      simp only [splitLabel, cut]
      split
      · refine (trim_part after).trans ⟨before ++ [':'], [], ?_⟩
        simp [eq_append_of_cutAt? cut]
      · exact List.infix_rfl

/-- The line is read as data. -/
def ReadAsData (s : List Char) : Prop :=
  ∃ label width items, Line.parse s = .ok ⟨label, .data width items⟩

/-- A line that can be read is read alike with other gaps. -/
theorem Respaced.parseLine (respaced : Respaced dup none s t) (last : QuotesLast (stripComment s))
    {label : Option String} {st : Statement} (read : Line.parse s = .ok ⟨label, st⟩)
    (asked : ReadAsData s → dup) : ∃ st', Line.parse t = .ok ⟨label, st'⟩ ∧ st.Respaced st' := by
  have code := respaced.beforeComment.trim quoting_none
  obtain ⟨same, body⟩ := code.splitLabel
  have lasting : QuotesLast (Source.splitLabel (Text.trim (stripComment s))).2 :=
    last.part ((splitLabel_part _).trans (trim_part _))
  have parsed : Source.parseBody (Source.splitLabel (Text.trim (stripComment t))).1
      (Source.splitLabel (Text.trim (stripComment s))).2 = .ok ⟨label, st⟩ := same ▸ read
  refine body.parseBody lasting parsed fun width items data => asked ⟨label, width, items, ?_⟩
  rw [read, data]

/-- Other gaps outside quotes leave a line as it is read: both lines are refused, or both have the
same label and the same statement.  What has to hold for that is that nothing follows a quoted quote,
and that a gap before DUP in data ends in a plain blank in both lines or in neither.  What may differ
is a string with its own quote inside. -/
theorem Line.parse_respaced (s t : List Char)
    (respaced : Respaced (ReadAsData s ∨ ReadAsData t) none s t)
    (last : QuotesLast (stripComment s)) :
    ((∃ e, Line.parse s = .error e) ∧ ∃ e, Line.parse t = .error e) ∨
      ∃ label st st', Line.parse s = .ok ⟨label, st⟩ ∧ Line.parse t = .ok ⟨label, st'⟩ ∧
        st.Respaced st' ∧
        ((∀ width items, st = .data width items → ∀ bytes, DataItem.string bytes ∉ items) →
          st' = st) := by
  have last' : QuotesLast (stripComment t) := last.of_respaced respaced.beforeComment
  cases left : Line.parse s with
  | ok line =>
      obtain ⟨label, st⟩ := line
      obtain ⟨st', right, alike⟩ := respaced.parseLine last left .inl
      exact .inr ⟨label, st, st', rfl, right, alike, alike.eq_of_plain⟩
  | error e =>
      cases right : Line.parse t with
      | error e' => exact .inl ⟨⟨e, rfl⟩, e', rfl⟩
      | ok line =>
          obtain ⟨label, st⟩ := line
          obtain ⟨st', left', -⟩ := respaced.symm.parseLine last' right .inr
          rw [left] at left'
          cases left'

/-- With blanks or with tabs there are a string and three bytes.  A gap is part of the string. -/
theorem Line.parse_respaced_data :
    ∃ st st', Line.parse "T DB 'a' 'b', 3 DUP (0)".toList = .ok ⟨some "T", st⟩ ∧
      Line.parse "T\tDB\t 'a'\t'b',\t3 \t DUP\t(0)".toList = .ok ⟨some "T", st'⟩ ∧
      st.Respaced st' := by
  have gap : Gap " ".toList := .of_all (by decide) (by decide)
  have tab : Gap "\t".toList := .of_all (by decide) (by decide)
  have both : Gap "\t ".toList := .of_all (by decide) (by decide)
  have three : Gap " \t ".toList := .of_all (by decide) (by decide)
  have respaced : Respaced True none
      ("T".toList ++ (" ".toList ++ ("DB".toList ++ (" ".toList ++ ("'a'".toList ++
        (" ".toList ++ ("'b',".toList ++ (" ".toList ++ ("3".toList ++ (" ".toList ++
        ("DUP".toList ++ (" ".toList ++ "(0)".toList))))))))))))
      ("T".toList ++ ("\t".toList ++ ("DB".toList ++ ("\t ".toList ++ ("'a'".toList ++
        ("\t".toList ++ ("'b',".toList ++ ("\t".toList ++ ("3".toList ++ (" \t ".toList ++
        ("DUP".toList ++ ("\t".toList ++ "(0)".toList)))))))))))) :=
    .append_left (by decide) <| .gap gap tab (by decide) <|
    .append_left (by decide) <| .gap gap both (by decide) <|
    .append_left (by decide) <| .gap gap tab (by decide) <|
    .append_left (by decide) <| .gap gap tab (by decide) <|
    .append_left (by decide) <| .gap gap three (by decide) <|
    .append_left (by decide) <| .gap gap tab (by decide) <| .refl True none _
  have last : QuotesLast (stripComment "T DB 'a' 'b', 3 DUP (0)".toList) := by
    refine .of_absent fun q quote => ?_
    rcases isQuote_cases quote with rfl | rfl <;> decide
  have label : (Line.parse "T DB 'a' 'b', 3 DUP (0)".toList).map Line.label = .ok (some "T") := by
    decide +kernel
  rcases Line.parse_respaced "T DB 'a' 'b', 3 DUP (0)".toList
      "T\tDB\t 'a'\t'b',\t3 \t DUP\t(0)".toList (respaced.mono fun _ => trivial) last with
    ⟨⟨e, refused⟩, -⟩ | ⟨label', st, st', left, right, alike, -⟩
  · rw [refused] at label
    cases label
  · rw [left] at label
    cases label
    exact ⟨st, st', left, right, alike⟩

/-- A tab before DUP is not found. -/
theorem Line.tab_before_dup :
    Respaced False none "DB 3 DUP (0)".toList "DB 3\tDUP (0)".toList ∧
      Line.parse "DB 3 DUP (0)".toList = .ok ⟨none, .data .byte [.dup 3 (.ofValue 0)]⟩ ∧
      Line.parse "DB 3\tDUP (0)".toList = .error (.badTerm "3\tDUP (0)") := by
  have gap : Gap " ".toList := .of_all (by decide) (by decide)
  have tab : Gap "\t".toList := .of_all (by decide) (by decide)
  have respaced : Respaced False none ("DB 3".toList ++ (" ".toList ++ "DUP (0)".toList))
      ("DB 3".toList ++ ("\t".toList ++ "DUP (0)".toList)) :=
    .append_left (by decide) (.gap gap tab (by decide) (.refl False none _))
  exact ⟨respaced, by decide +kernel, by decide +kernel⟩

end Asm86.Source
