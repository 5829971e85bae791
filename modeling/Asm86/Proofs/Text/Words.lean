/-
# Asm86.Proofs.Text.Words -- what trimming and cutting leave alone

A text is `Solid` when it holds no blank, and `Tight` when it has none at its ends.  Trimming
does nothing to a tight text, and the first word of a text is what stands before the first
blank (`splitWord_solid`, `splitWord_gap`).  Cutting at a character finds the first one
(`cutAt?_append`), and a line without semicolons and quotes has no comment
(`stripComment_plain`).
-/
import Asm86.Text.Blank
import Asm86.Text.Cut
import Asm86.Text.Name
import Asm86.Text.Quoted
import Mathlib

namespace Asm86.Text

set_option autoImplicit false

/-! ## Blanks -/

/-- No blank anywhere. -/
def Solid (s : List Char) : Prop := ∀ c ∈ s, isBlank c = false

instance (s : List Char) : Decidable (Solid s) :=
  decidable_of_iff (s.all fun c => !isBlank c) (by simp [Solid])

/-- No blank at either end. -/
structure Tight (s : List Char) : Prop where
  start : ∀ c ∈ s.head?, isBlank c = false
  stop : ∀ c ∈ s.getLast?, isBlank c = false

theorem Solid.tight {s : List Char} (solid : Solid s) : Tight s where
  start c first := solid c (List.mem_of_mem_head? first)
  stop c last := solid c (List.mem_of_mem_getLast? last)

theorem Solid.append {s t : List Char} (left : Solid s) (right : Solid t) : Solid (s ++ t) :=
  List.forall_mem_append.2 ⟨left, right⟩

theorem Solid.cons {c : Char} {s : List Char} (first : isBlank c = false) (rest : Solid s) :
    Solid (c :: s) :=
  List.forall_mem_cons.2 ⟨first, rest⟩

/-- The ends of a text decide, whatever stands between them. -/
theorem Tight.around {s t : List Char} (left : Tight s) (right : Tight t) (nonempty : s ≠ [])
    (nonempty' : t ≠ []) (between : List Char) : Tight (s ++ (between ++ t)) where
  start c first := by
    obtain ⟨d, rest, rfl⟩ := List.exists_cons_of_ne_nil nonempty
    exact left.start c first
  stop c last := by
    rw [← List.append_assoc, List.getLast?_append, Option.or_of_isSome] at last
    · exact right.stop c last
    · exact List.getLast?_isSome.2 nonempty'

theorem trimStart_tight {s : List Char} (start : ∀ c ∈ s.head?, isBlank c = false) :
    trimStart s = s := by
  cases s with
  | nil => rfl
  | cons c rest => simp [trimStart, start c rfl]

theorem trim_tight {s : List Char} (tight : Tight s) : trim s = s := by
  have front : trimStart s = s := trimStart_tight tight.start
  have back : s.reverse.dropWhile isBlank = s.reverse := by
    apply trimStart_tight
    rw [List.head?_reverse]
    exact tight.stop
  rw [trim, front, trimEnd, back, List.reverse_reverse]

/-- Blanks in front reach as far as the first character that is none. -/
theorem trimStart_append {c : Char} (shown : isBlank c = false) (s rest : List Char) :
    trimStart (s ++ c :: rest) = trimStart s ++ c :: rest := by
  have start : trimStart (c :: rest) = c :: rest := by simp [trimStart, shown]
  rw [trimStart, List.dropWhile_append]
  split
  · rename_i blank
    rw [List.isEmpty_iff] at blank
    rw [trimStart, blank, List.nil_append]
    exact start
  · rfl

theorem trimEnd_append {c : Char} (shown : isBlank c = false) (s rest : List Char) :
    trimEnd (s ++ c :: rest) = s ++ c :: trimEnd rest := by
  have turned := trimStart_append shown rest.reverse s.reverse
  have whole : (s ++ c :: rest).reverse = rest.reverse ++ c :: s.reverse := by simp
  rw [trimStart, trimStart] at turned
  rw [trimEnd, whole, turned, trimEnd]
  simp

/-- Trimming never goes past a character that is no blank. -/
theorem trim_front {s : List Char} (tight : Tight s) (nonempty : s ≠ []) (rest : List Char) :
    trim (s ++ rest) = s ++ trimEnd rest := by
  have front : trimStart (s ++ rest) = s ++ rest := by
    apply trimStart_tight
    rw [List.head?_append_of_ne_nil _ nonempty]
    exact tight.start
  obtain rfl | ⟨init, last, rfl⟩ := List.eq_nil_or_concat s
  · exact absurd rfl nonempty
  · have shown : isBlank last = false := tight.stop last (by simp)
    rw [trim, front, List.concat_append, trimEnd_append shown, List.concat_append]

theorem trim_append {s : List Char} (tight : Tight s) (nonempty : s ≠ []) (rest : List Char) :
    ∃ kept, trim (s ++ rest) = s ++ kept :=
  ⟨trimEnd rest, trim_front tight nonempty rest⟩

theorem trimEnd_append_blank {back : List Char} (blank : allBlank back = true) (s : List Char) :
    trimEnd (s ++ back) = trimEnd s := by
  have blanks : ∀ d ∈ back.reverse, isBlank d = true := fun d member =>
    List.all_eq_true.1 blank d (List.mem_reverse.1 member)
  rw [trimEnd, List.reverse_append, List.dropWhile_append_of_pos blanks, trimEnd]

/-- Blanks at the end are trimmed off, whatever else is. -/
theorem allBlank_append (s t : List Char) : allBlank (s ++ t) = (allBlank s && allBlank t) :=
  List.all_append

/-- Blanks at the end reach back to the last character that is none. -/
theorem trimEnd_append_eq (s t : List Char) :
    trimEnd (s ++ t) = if allBlank t then trimEnd s else s ++ trimEnd t := by
  split
  · rename_i blank
    exact trimEnd_append_blank blank s
  · rename_i shown
    obtain ⟨c, member, unblank⟩ : ∃ c ∈ t, isBlank c = false := by simpa [allBlank] using shown
    obtain ⟨u, v, rfl, -⟩ := List.eq_append_cons_of_mem member
    rw [← List.append_assoc, trimEnd_append unblank, trimEnd_append unblank, List.append_assoc]

theorem trimEnd_cons (c : Char) (s : List Char) :
    trimEnd (c :: s) = if allBlank (c :: s) then [] else c :: trimEnd s := by
  split
  · rename_i blank
    exact trimEnd_append_blank blank []
  · rename_i shown
    by_cases first : isBlank c = true
    · have later : ¬ allBlank s = true := fun blank => shown (Bool.and_eq_true_iff.2 ⟨first, blank⟩)
      rw [← List.singleton_append, trimEnd_append_eq, if_neg later]
      rfl
    · exact trimEnd_append (by simpa using first) [] s

theorem trim_append_blank {s back : List Char} (tight : Tight s) (nonempty : s ≠ [])
    (blank : allBlank back = true) : trim (s ++ back) = s := by
  have nothing : trimEnd back = [] := trimEnd_append_blank blank []
  rw [trim_front tight nonempty, nothing, List.append_nil]

theorem trim_append_allBlank {back : List Char} (blank : allBlank back = true) (s : List Char) :
    trim (s ++ back) = trim s := by
  have none : trimStart back = [] := List.dropWhile_eq_nil_iff.2 (List.all_eq_true.1 blank)
  rw [trim, trim, trimStart, List.dropWhile_append]
  split
  · rename_i empty
    rw [← trimStart, none, trimStart, List.isEmpty_iff.1 empty]
  · exact trimEnd_append_blank blank _

/-- Trimming takes blanks off both ends. -/
theorem trim_parts (s : List Char) :
    ∃ front back, allBlank front = true ∧ allBlank back = true ∧ s = front ++ (trim s ++ back) := by
  refine ⟨s.takeWhile isBlank, ((trimStart s).reverse.takeWhile isBlank).reverse, ?_, ?_, ?_⟩
  · exact List.all_takeWhile
  · rw [allBlank, List.all_reverse]
    exact List.all_takeWhile
  · rw [trim, trimEnd, ← List.reverse_append, List.takeWhile_append_dropWhile,
      List.reverse_reverse, trimStart, List.takeWhile_append_dropWhile]

theorem trim_part (s : List Char) : trim s <:+: s := by
  obtain ⟨front, back, -, -, whole⟩ := trim_parts s
  exact ⟨front, back, by simpa using whole.symm⟩

theorem head?_trimStart {s : List Char} {c : Char} (first : c ∈ (trimStart s).head?) :
    isBlank c = false := by
  have unblank := List.head?_dropWhile_not isBlank s
  rwa [← trimStart, Option.mem_def.1 first] at unblank

theorem tight_trim (s : List Char) : Tight (trim s) where
  start c first := by
    have leading : trim s <+: trimStart s := by
      rw [trim, trimEnd, ← List.reverse_suffix, List.reverse_reverse]
      exact List.dropWhile_suffix _
    obtain ⟨back, whole⟩ := leading
    apply head?_trimStart
    rw [← whole, List.head?_append, Option.mem_def.1 first]
    rfl
  stop c last := by
    rw [trim, trimEnd, List.getLast?_reverse] at last
    exact head?_trimStart last

theorem trim_cons_blank {c : Char} (blank : isBlank c = true) (s : List Char) :
    trim (c :: s) = trim s := by
  simp [trim, trimStart, blank]

theorem trim_append_left {front : List Char} (blank : allBlank front = true) (s : List Char) :
    trim (front ++ s) = trim s := by
  induction front with
  | nil => rfl
  | cons c front ih =>
      obtain ⟨first, later⟩ := Bool.and_eq_true_iff.1 blank
      rw [List.cons_append, trim_cons_blank first, ih later]

theorem trimEnd_subset (s : List Char) : trimEnd s ⊆ s := by
  intro c member
  rw [trimEnd, List.mem_reverse] at member
  exact List.mem_reverse.1 ((List.dropWhile_suffix _).subset member)

theorem splitWord_trim (s : List Char) : splitWord (trim s) = splitWord s := by
  rw [splitWord, trim_tight (tight_trim s), splitWord]

/-- A text is its first word, blanks, and what follows them. -/
theorem splitWord_parts (s : List Char) :
    ∃ gap, allBlank gap = true ∧ trim s = (splitWord s).1 ++ (gap ++ (splitWord s).2) := by
  refine ⟨((trim s).dropWhile fun c => !isBlank c).takeWhile isBlank, List.all_takeWhile, ?_⟩
  simp only [splitWord, trimStart, List.takeWhile_append_dropWhile]

theorem splitWord_part (s : List Char) : (splitWord s).2 <:+: s := by
  obtain ⟨gap, -, parts⟩ := splitWord_parts s
  exact List.IsInfix.trans ⟨(splitWord s).1 ++ gap, [], by simp [parts]⟩ (trim_part s)

/-- The word at the front of a tight text. -/
theorem splitWord_tight {s : List Char} (tight : Tight s) :
    splitWord s =
      (s.takeWhile (fun c => !isBlank c), trimStart (s.dropWhile fun c => !isBlank c)) := by
  rw [splitWord, trim_tight tight]

theorem splitWord_solid {w : List Char} (solid : Solid w) : splitWord w = (w, []) := by
  have word : ∀ c ∈ w, (!isBlank c) = true := fun c member => by simp [solid c member]
  rw [splitWord_tight solid.tight, List.takeWhile_eq_self_iff.2 word,
    List.dropWhile_eq_nil_iff.2 word]
  rfl

/-- Blanks, however many, end a word. -/
theorem splitWord_gap {w gap rest : List Char} (solid : Solid w) (nonempty : w ≠ [])
    (apart : gap ≠ []) (blank : allBlank gap = true) (tight : Tight rest) (nonempty' : rest ≠ []) :
    splitWord (w ++ (gap ++ rest)) = (w, rest) := by
  have word : ∀ c ∈ w, (!isBlank c) = true := fun c member => by simp [solid c member]
  have blanks : ∀ c ∈ gap, isBlank c = true := List.all_eq_true.1 blank
  have whole : Tight (w ++ (gap ++ rest)) := solid.tight.around tight nonempty nonempty' gap
  have behind : trimStart (gap ++ rest) = rest := by
    rw [trimStart, List.dropWhile_append_of_pos blanks]
    exact trimStart_tight tight.start
  rw [splitWord_tight whole, List.takeWhile_append_of_pos word, List.dropWhile_append_of_pos word]
  obtain ⟨c, tail, rfl⟩ := List.exists_cons_of_ne_nil apart
  have first : isBlank c = true := blanks c (List.mem_cons_self ..)
  simp only [List.cons_append, List.takeWhile_cons, List.dropWhile_cons, first, Bool.not_true,
    Bool.false_eq_true, ↓reduceIte, List.append_nil]
  exact Prod.ext rfl behind

/-- A word that blanks or nothing follow is cut off, and the rest is trimmed. -/
theorem splitWord_word {w rest : List Char} (solid : Solid w) (nonempty : w ≠ [])
    (apart : ∀ c ∈ rest.head?, isBlank c = true) : splitWord (w ++ rest) = (w, trim rest) := by
  obtain ⟨front, back, blankFront, blankBack, whole⟩ := trim_parts rest
  have same : splitWord (w ++ rest) = splitWord (w ++ (front ++ trim rest)) := by
    conv_lhs => rw [whole, ← List.append_assoc front, ← List.append_assoc w]
    rw [splitWord, trim_append_allBlank blankBack, splitWord]
  rw [same]
  by_cases empty : trim rest = []
  · rw [empty, List.append_nil, splitWord, trim_append_allBlank blankFront, ← splitWord]
    exact splitWord_solid solid
  · have gap : front ≠ [] := by
      rintro rfl
      rw [List.nil_append] at whole
      obtain ⟨c, tail, shown⟩ := List.exists_cons_of_ne_nil empty
      have blank := apart c (by rw [whole, shown]; rfl)
      have unblank := (tight_trim rest).start c (by rw [shown]; rfl)
      rw [blank] at unblank
      cases unblank
    exact splitWord_gap solid nonempty gap blankFront (tight_trim rest) empty

/-- Characters before the first blank are in the first word. -/
theorem mem_splitWord {w : List Char} {c : Char} (solid : Solid (w ++ [c])) (rest : List Char) :
    c ∈ (splitWord (w ++ c :: rest)).1 := by
  obtain ⟨kept, trimmed⟩ := trim_append solid.tight (by simp) rest
  have shown : ∀ d ∈ w ++ [c], (!isBlank d) = true := fun d member => by simp [solid d member]
  have split : w ++ c :: rest = w ++ [c] ++ rest := by simp
  rw [split, splitWord, trimmed, List.takeWhile_append_of_pos shown]
  simp

/-- The first word ends before a given character or takes it in, whatever stands behind it. -/
theorem splitWord_around {q : Char} (shown : isBlank q = false) (u : List Char) :
    (∀ rest, q ∈ (splitWord (u ++ q :: rest)).1) ∨
      ∃ front w gap u', u = front ++ (w ++ (gap ++ u')) ∧ allBlank front = true ∧
        allBlank gap = true ∧ trimStart u' = u' ∧
        ∀ rest, splitWord (u ++ q :: rest) = (w, trim (u' ++ q :: rest)) := by
  obtain ⟨front, blankFront, whole⟩ : ∃ front, allBlank front = true ∧ u = front ++ trimStart u :=
    ⟨u.takeWhile isBlank, List.all_takeWhile, List.takeWhile_append_dropWhile.symm⟩
  have start : ∀ c ∈ (trimStart u).head?, isBlank c = false := fun c => head?_trimStart
  generalize trimStart u = t at whole start
  subst whole
  have words : t = t.takeWhile (fun c => !isBlank c) ++ t.dropWhile fun c => !isBlank c :=
    List.takeWhile_append_dropWhile.symm
  have solid : Solid (t.takeWhile fun c => !isBlank c) := fun c member => by
    simpa using List.mem_takeWhile_imp member
  have behind : ∀ c ∈ (t.dropWhile fun c => !isBlank c).head?, isBlank c = true := fun c first => by
    have blank := List.head?_dropWhile_not (fun c => !isBlank c) t
    rw [Option.mem_def.1 first] at blank
    simpa using blank
  generalize t.takeWhile (fun c => !isBlank c) = w at words solid
  generalize t.dropWhile (fun c => !isBlank c) = r at words behind
  subst words
  have cut : ∀ rest, splitWord (front ++ (w ++ r) ++ q :: rest) = splitWord (w ++ (r ++ q :: rest)) := by
    intro rest
    rw [List.append_assoc, ← splitWord_trim, trim_append_left blankFront, splitWord_trim,
      List.append_assoc]
  cases r with
  | nil =>
      refine .inl fun rest => ?_
      rw [cut]
      exact mem_splitWord (solid.append (.cons shown (by simp [Solid]))) rest
  | cons b r =>
      have nonempty : w ≠ [] := by
        rintro rfl
        have blank := behind b rfl
        rw [start b rfl] at blank
        cases blank
      have gap : b :: r = (b :: r).takeWhile isBlank ++ trimStart (b :: r) :=
        List.takeWhile_append_dropWhile.symm
      refine .inr ⟨front, w, (b :: r).takeWhile isBlank, trimStart (b :: r), by rw [← gap],
        blankFront, List.all_takeWhile, trimStart_tight fun c => head?_trimStart, fun rest => ?_⟩
      rw [cut, splitWord_word solid nonempty (by simpa using behind)]
      conv_lhs => rw [gap, List.append_assoc]
      rw [trim_append_left List.all_takeWhile]

theorem splitWord_append {w rest : List Char} (solid : Solid w) (nonempty : w ≠ [])
    (tight : Tight rest) (nonempty' : rest ≠ []) : splitWord (w ++ ' ' :: rest) = (w, rest) :=
  splitWord_gap solid nonempty (List.cons_ne_nil ' ' []) (by decide) tight nonempty'

theorem not_mem_of_allBlank {s : List Char} (blank : allBlank s = true) {c : Char}
    (shown : isBlank c = false) : c ∉ s := by
  intro member
  rw [List.all_eq_true.1 blank c member] at shown
  cases shown

theorem allBlank_eq_false {s : List Char} (start : ∀ c ∈ s.head?, isBlank c = false)
    (nonempty : s ≠ []) : allBlank s = false := by
  cases s with
  | nil => exact absurd rfl nonempty
  | cons c rest => simp [allBlank, start c rfl]

/-! ## Cuts -/

theorem cutAt?_of_not_mem {c : Char} {s : List Char} (absent : c ∉ s) : cutAt? c s = none := by
  induction s with
  | nil => rfl
  | cons d rest ih =>
      obtain ⟨differs, later⟩ := not_or.1 (List.mem_cons.not.1 absent)
      simp [cutAt?, Ne.symm differs, ih later]

/-- A part without the character goes with whatever is cut off behind it. -/
theorem not_mem_of_cutAt? {c : Char} {s : List Char} (uncut : cutAt? c s = none) : c ∉ s := by
  induction s with
  | nil => exact List.not_mem_nil
  | cons d rest ih =>
      rw [cutAt?] at uncut
      split at uncut
      · cases uncut
      · rename_i other
        rintro (_ | ⟨_, member⟩)
        · exact other (beq_self_eq_true c)
        · exact ih (Option.map_eq_none_iff.1 uncut) member

theorem cutAt?_append_left {c : Char} {s : List Char} (absent : c ∉ s) (rest : List Char) :
    cutAt? c (s ++ rest) = (cutAt? c rest).map fun parts => (s ++ parts.1, parts.2) := by
  induction s with
  | nil => simp
  | cons d s ih =>
      obtain ⟨differs, later⟩ := not_or.1 (List.mem_cons.not.1 absent)
      simp [cutAt?, Ne.symm differs, ih later, Function.comp_def]

theorem cutAt?_append_right {c : Char} {back : List Char} (absent : c ∉ back) (s : List Char) :
    cutAt? c (s ++ back) = (cutAt? c s).map fun parts => (parts.1, parts.2 ++ back) := by
  induction s with
  | nil => simp [cutAt?_of_not_mem absent, cutAt?]
  | cons d s ih =>
      rw [List.cons_append, cutAt?, cutAt?]
      split
      · rfl
      · rw [ih, Option.map_map, Option.map_map]
        rfl

theorem eq_append_of_cutAt? {c : Char} {s before after : List Char}
    (cut : cutAt? c s = some (before, after)) : s = before ++ c :: after := by
  induction s generalizing before with
  | nil => cases cut
  | cons d s ih =>
      rw [cutAt?] at cut
      split at cut
      · rename_i here
        cases cut
        rw [beq_iff_eq.1 here, List.nil_append]
      · obtain ⟨⟨before', after'⟩, inner, same⟩ := Option.map_eq_some_iff.1 cut
        cases same
        rw [ih inner, List.cons_append]

/-- The first cut stays where it is when something is put behind the text. -/
theorem cutAt?_append_of_some {c : Char} {s before after : List Char}
    (cut : cutAt? c s = some (before, after)) (rest : List Char) :
    cutAt? c (s ++ rest) = some (before, after ++ rest) := by
  induction s generalizing before with
  | nil => cases cut
  | cons d s ih =>
      rw [cutAt?] at cut
      rw [List.cons_append, cutAt?]
      split at cut
      · rename_i here
        cases cut
        rw [if_pos here]
      · rename_i other
        obtain ⟨⟨before', after'⟩, inner, same⟩ := Option.map_eq_some_iff.1 cut
        cases same
        rw [if_neg other, ih inner]
        rfl

theorem cutAt?_append {c : Char} {s : List Char} (absent : c ∉ s) (rest : List Char) :
    cutAt? c (s ++ c :: rest) = some (s, rest) := by
  rw [cutAt?_append_left absent]
  simp [cutAt?]

/-! ## Quotes and comments -/

theorem quoteAfter_plain {opens : Char → Bool} {c : Char} (plain : opens c = false) :
    quoteAfter opens none c = none := by
  simp [quoteAfter, plain]

/-- Without quotes and semicolons, a part goes with whatever is left of the rest. -/
theorem quoteAfter_quote {opens : Char → Bool} {q : Char} (quote : opens q = true) :
    quoteAfter opens none q = some q := by
  simp [quoteAfter, quote]

theorem stripComment_append {s : List Char} (plain : ∀ c ∈ s, isQuote c = false ∧ c ≠ ';')
    (rest : List Char) : stripComment (s ++ rest) = s ++ stripComment rest := by
  unfold stripComment
  induction s with
  | nil => rfl
  | cons c s ih =>
      obtain ⟨⟨unquoted, code⟩, later⟩ := List.forall_mem_cons.1 plain
      simp [beforeComment, code, quoteAfter_plain unquoted, ih later]

theorem stripComment_plain {s : List Char} (plain : ∀ c ∈ s, isQuote c = false ∧ c ≠ ';') :
    stripComment s = s := by
  have whole := stripComment_append plain []
  rwa [List.append_nil, show stripComment [] = [] from rfl, List.append_nil] at whole

theorem plain_of_isBlank {c : Char} (blank : isBlank c = true) :
    isQuote c = false ∧ c ≠ ';' ∧ c ≠ ':' := by
  refine ⟨?_, ?_, ?_⟩
  · rw [← Bool.not_eq_true]
    intro quote
    rcases Bool.or_eq_true _ _ ▸ quote with single | double
    · rw [beq_iff_eq.1 single] at blank
      exact absurd blank (by decide)
    · rw [beq_iff_eq.1 double] at blank
      exact absurd blank (by decide)
  · rintro rfl
    exact absurd blank (by decide)
  · rintro rfl
    exact absurd blank (by decide)

/-! ## Case -/

theorem upper_lower (s : List Char) : upper (lower s) = upper s := by
  simp [upper, lower]

theorem lower_upper (s : List Char) : lower (upper s) = lower s := by
  simp [upper, lower]

/-! ## Names and keywords -/

/-- The codes of the characters of a name. -/
theorem toNat_of_isNameChar {c : Char} (name : isNameChar c = true) :
    36 = c.toNat ∨ 46 = c.toNat ∨ (48 ≤ c.toNat ∧ c.toNat ≤ 57) ∨ (63 ≤ c.toNat ∧ c.toNat ≤ 90) ∨
      95 = c.toNat ∨ (97 ≤ c.toNat ∧ c.toNat ≤ 122) := by
  simp only [isNameChar, isNameMark, Char.isAlphanum, Char.isAlpha, Char.isUpper, Char.isLower,
    Char.isDigit, Bool.or_eq_true, Bool.and_eq_true, decide_eq_true_eq, beq_iff_eq, ge_iff_le,
    UInt32.le_iff_toNat_le] at name
  change (((65 ≤ c.toNat ∧ c.toNat ≤ 90) ∨ 97 ≤ c.toNat ∧ c.toNat ≤ 122) ∨
    48 ≤ c.toNat ∧ c.toNat ≤ 57) ∨ _ at name
  rcases name with alphanumeric | (((rfl | rfl) | rfl) | rfl) | rfl
  · omega
  all_goals simp [Char.toNat]

theorem isBlank_of_isNameChar {c : Char} (name : isNameChar c = true) : isBlank c = false := by
  have codes := toNat_of_isNameChar name
  rw [← Bool.not_eq_true]
  simp only [isBlank, Bool.or_eq_true, Bool.and_eq_true, beq_iff_eq, decide_eq_true_eq]
  omega

theorem isQuote_cases {q : Char} (quote : isQuote q = true) : q = '\x27' ∨ q = '\x22' := by
  simpa [isQuote] using quote

theorem isQuote_of_isNameChar {c : Char} (name : isNameChar c = true) : isQuote c = false := by
  rw [← Bool.not_eq_true]
  intro quote
  rcases isQuote_cases quote with rfl | rfl <;> exact absurd name (by decide)

theorem isNameChar_of_isIdentifier {s : List Char} (identifier : isIdentifier s = true) :
    ∀ c ∈ s, isNameChar c = true := by
  cases s with
  | nil => exact fun _ member => absurd member List.not_mem_nil
  | cons c rest =>
      simp only [isIdentifier, Bool.and_eq_true, List.all_eq_true] at identifier
      refine List.forall_mem_cons.2 ⟨?_, identifier.2⟩
      rcases Bool.or_eq_true _ _ ▸ identifier.1 with letter | mark
      · simp [isNameChar, Char.isAlphanum, letter]
      · simp [isNameChar, mark]

theorem ne_nil_of_isIdentifier {s : List Char} (identifier : isIdentifier s = true) : s ≠ [] := by
  rintro rfl
  cases identifier

theorem solid_of_isIdentifier {s : List Char} (identifier : isIdentifier s = true) : Solid s :=
  fun c member => isBlank_of_isNameChar (isNameChar_of_isIdentifier identifier c member)

/-- A character that no case of the keyword's characters gives cannot be in it. -/
theorem isKeyword_eq_false {keyword : String} {word : List Char} {c : Char} (member : c ∈ word)
    (foreign : c.toUpper ∉ keyword.toList) : isKeyword keyword word = false := by
  rw [isKeyword, beq_eq_false_iff_ne]
  intro same
  exact foreign (same ▸ List.mem_map_of_mem member)

end Asm86.Text
