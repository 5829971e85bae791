/-
# Asm86.Proofs.Source.Gaps -- the same text with other gaps

A gap is a run of blanks and tabs.  `Respaced` relates two texts that have the same characters but
for their gaps outside quotes, which may be of any length.  What cuts a text at blanks or at a
character cuts both texts at the same places, so the relation goes down to the parts: to what is
left without a comment (`Respaced.beforeComment`), without the blanks around it (`Respaced.trim`),
to words (`Respaced.splitWord`) and to the parts before and behind a character (`Respaced.cutAt?`).
Where nothing is left to change, the two are equal (`Respaced.eq_of_solid`).

The search for repetitions knows the plain blank only.  Where `dup` holds, the last character of a
gap before DUP is therefore a plain blank in both texts or in neither.
-/
import Asm86.Proofs.Text.Lines

namespace Asm86.Source

open Asm86.Text

set_option autoImplicit false

/-! ## Gaps -/

/-- A plain blank or a tab. -/
def isSpace (c : Char) : Bool := c == ' ' || c == '\t'

/-- Blanks and tabs, at least one. -/
structure Gap (w : List Char) : Prop where
  nonempty : w ≠ []
  spaces : ∀ c ∈ w, isSpace c = true

theorem isBlank_of_isSpace {c : Char} (space : isSpace c = true) : isBlank c = true := by
  rcases Bool.or_eq_true _ _ ▸ space with blank | tab
  · rw [beq_iff_eq.1 blank]
    decide
  · rw [beq_iff_eq.1 tab]
    decide

theorem isSpace_of_shown {c : Char} (shown : isBlank c = false) : isSpace c = false := by
  rw [← Bool.not_eq_true]
  intro space
  rw [isBlank_of_isSpace space] at shown
  cases shown

theorem isSpace_of_quote {c : Char} (quote : isQuote c = true) : isSpace c = false := by
  rw [← Bool.not_eq_true]
  intro space
  rw [(plain_of_isBlank (isBlank_of_isSpace space)).1] at quote
  cases quote

namespace Gap

variable {w : List Char}

theorem blank (gap : Gap w) : allBlank w = true :=
  List.all_eq_true.2 fun c member => isBlank_of_isSpace (gap.spaces c member)

theorem not_mem (gap : Gap w) {c : Char} (shown : isSpace c = false) : c ∉ w := by
  intro member
  rw [gap.spaces c member] at shown
  cases shown

theorem of_all (nonempty : w ≠ []) (spaces : w.all isSpace = true) : Gap w :=
  ⟨nonempty, List.all_eq_true.1 spaces⟩

theorem exists_cons (gap : Gap w) : ∃ c rest, w = c :: rest ∧ isBlank c = true := by
  obtain ⟨c, rest, rfl⟩ := List.exists_cons_of_ne_nil gap.nonempty
  exact ⟨c, rest, rfl, isBlank_of_isSpace (gap.spaces c (List.mem_cons_self ..))⟩

end Gap

/-! ## Quotes -/

/-- A character that opens a quoted stretch, or none. -/
def Quoting (opens : Char → Bool) (quote : Option Char) : Prop := ∀ q ∈ quote, opens q = true

theorem quoting_none {opens : Char → Bool} : Quoting opens none :=
  fun _ impossible => (nomatch impossible)

namespace Quoting

variable {opens : Char → Bool} {quote : Option Char}

theorem after (quoting : Quoting opens quote) (c : Char) :
    Quoting opens (quoteAfter opens quote c) := by
  intro q inside
  cases quote with
  | none =>
      simp only [quoteAfter] at inside
      split at inside
      · rename_i opened
        cases inside
        exact opened
      · cases inside
  | some q' =>
      simp only [quoteAfter] at inside
      split at inside
      · cases inside
      · exact quoting q inside

theorem plain (quoting : Quoting opens quote) {c : Char} (plain : opens c = false) :
    quoteAfter opens quote c = quote := by
  cases quote with
  | none => exact quoteAfter_plain plain
  | some q =>
      have other : c ≠ q := by
        rintro rfl
        rw [quoting c rfl] at plain
        cases plain
      simp [quoteAfter, other]

end Quoting

/-- The quote a scan is inside of after a text. -/
def quoteOver (quote : Option Char) (s : List Char) : Option Char :=
  s.foldl (quoteAfter isQuote) quote

@[simp] theorem quoteOver_nil (quote : Option Char) : quoteOver quote [] = quote := rfl

@[simp] theorem quoteOver_cons (quote : Option Char) (c : Char) (s : List Char) :
    quoteOver quote (c :: s) = quoteOver (quoteAfter isQuote quote c) s := rfl

theorem quoteOver_append (quote : Option Char) (s t : List Char) :
    quoteOver quote (s ++ t) = quoteOver (quoteOver quote s) t := List.foldl_append

theorem Quoting.plain_all {quote : Option Char} (quoting : Quoting isQuote quote) {s : List Char}
    (plain : ∀ c ∈ s, isQuote c = false) : quoteOver quote s = quote := by
  induction s with
  | nil => rfl
  | cons c s ih =>
      obtain ⟨first, later⟩ := List.forall_mem_cons.1 plain
      rw [quoteOver_cons, quoting.plain first, ih later]

theorem Quoting.over_text {quote : Option Char} (quoting : Quoting isQuote quote) (s : List Char) :
    Quoting isQuote (quoteOver quote s) := by
  induction s generalizing quote with
  | nil => exact quoting
  | cons c s ih => exact ih (quoting.after c)

theorem isQuote_of_allBlank {w : List Char} (blank : allBlank w = true) :
    ∀ c ∈ w, isQuote c = false :=
  fun c member => (plain_of_isBlank (List.all_eq_true.1 blank c member)).1

/-- Blanks around a text open and close nothing. -/
theorem quoteOver_trim (s : List Char) : quoteOver none (trim s) = quoteOver none s := by
  obtain ⟨front, back, blankFront, blankBack, whole⟩ := trim_parts s
  have quoting : Quoting isQuote (quoteOver none (trim s)) := quoting_none.over_text _
  conv_rhs => rw [whole]
  rw [quoteOver_append, quoteOver_append, quoting_none.plain_all (isQuote_of_allBlank blankFront),
    quoting.plain_all (isQuote_of_allBlank blankBack)]

/-! ## Texts that differ in their gaps -/

/-- The text starts with DUP, in either case. -/
def startsDup (s : List Char) : Bool := upper (s.take 3) == ['D', 'U', 'P']

/-- The second text is the first with other gaps outside quotes, when both are read from inside of
`quote`.  Where `dup` holds, gaps before DUP end in a plain blank in both texts or in neither. -/
inductive Respaced (dup : Prop) : Option Char → List Char → List Char → Prop where
  | nil (quote : Option Char) : Respaced dup quote [] []
  | char {quote : Option Char} {s t : List Char} (c : Char)
      (later : Respaced dup (quoteAfter isQuote quote c) s t) : Respaced dup quote (c :: s) (c :: t)
  | gap {w w' s t : List Char} (left : Gap w) (right : Gap w')
      (kept : dup → startsDup s = true → (w.getLast? = some ' ' ↔ w'.getLast? = some ' '))
      (later : Respaced dup none s t) : Respaced dup none (w ++ s) (w' ++ t)

theorem startsDup_append {s : List Char} (starts : startsDup s = true) (t : List Char) :
    startsDup (s ++ t) = true := by
  rcases s with _ | ⟨a, _ | ⟨b, _ | ⟨c, rest⟩⟩⟩
  · exact absurd starts (by decide)
  · simp [startsDup, upper] at starts
  · simp [startsDup, upper] at starts
  · exact starts

theorem startsDup_of_isPrefix {s t : List Char} (front : s <+: t) (starts : startsDup s = true) :
    startsDup t = true := by
  obtain ⟨rest, rfl⟩ := front
  exact startsDup_append starts rest

/-- DUP starts with three letters. -/
theorem startsDup_cases {s : List Char} (starts : startsDup s = true) :
    ∃ a b c rest, s = a :: b :: c :: rest ∧ isNameChar a = true ∧ isNameChar b = true ∧
      isNameChar c = true := by
  have letter : ∀ {c d : Char}, c.toUpper = d → isNameChar d = true → isNameChar c = true := by
    intro c d same name
    by_cases small : c.isLower = true
    · simp [isNameChar, Char.isAlphanum, Char.isAlpha, small]
    · rwa [← same, Char.toUpper_eq_of_not_isLower small] at name
  rcases s with _ | ⟨a, _ | ⟨b, _ | ⟨c, rest⟩⟩⟩
  · exact absurd starts (by decide)
  · simp [startsDup, upper] at starts
  · simp [startsDup, upper] at starts
  · have same : a.toUpper = 'D' ∧ b.toUpper = 'U' ∧ c.toUpper = 'P' := by
      simpa [startsDup, upper] using starts
    exact ⟨a, b, c, rest, rfl, letter same.1 (by decide), letter same.2.1 (by decide),
      letter same.2.2 (by decide)⟩

namespace Respaced

variable {dup dup' : Prop} {quote : Option Char} {s t : List Char} {c : Char}

theorem refl (dup : Prop) (quote : Option Char) (s : List Char) : Respaced dup quote s s := by
  induction s generalizing quote with
  | nil => exact .nil quote
  | cons c s ih => exact .char c (ih _)

/-- Both texts may start in the same way. -/
theorem append_left {after : Option Char} {u : List Char} (state : quoteOver quote u = after)
    (respaced : Respaced dup after s t) : Respaced dup quote (u ++ s) (u ++ t) := by
  induction u generalizing quote with
  | nil =>
      rw [quoteOver_nil] at state
      rwa [state]
  | cons c u ih => exact .char c (ih state)

theorem mono (weaker : dup' → dup) (respaced : Respaced dup quote s t) :
    Respaced dup' quote s t := by
  induction respaced with
  | nil quote => exact .nil quote
  | char c _ ih => exact .char c ih
  | gap left right kept _ ih => exact .gap left right (fun asked => kept (weaker asked)) ih

theorem nil_left (respaced : Respaced dup quote [] t) : t = [] := by
  generalize empty : ([] : List Char) = s at respaced
  cases respaced with
  | nil => rfl
  | char c => cases empty
  | gap left => exact absurd (List.append_eq_nil_iff.1 empty.symm).1 left.nonempty

/-- A character that belongs to no gap stands in both texts. -/
theorem cons_left (shown : isSpace c = false) (respaced : Respaced dup quote (c :: s) t) :
    ∃ t', t = c :: t' ∧ Respaced dup (quoteAfter isQuote quote c) s t' := by
  generalize whole : c :: s = r at respaced
  cases respaced with
  | nil => cases whole
  | char d later =>
      cases whole
      exact ⟨_, rfl, later⟩
  | gap left right kept later =>
      obtain ⟨b, rest, rfl, -⟩ := left.exists_cons
      have same : c = b := (List.cons.inj whole).1
      rw [same, left.spaces b (List.mem_cons_self ..)] at shown
      cases shown

/-- Inside quotes the texts are the same. -/
theorem cons_quoted {q : Char} (respaced : Respaced dup (some q) (c :: s) t) :
    ∃ t', t = c :: t' ∧ Respaced dup (quoteAfter isQuote (some q) c) s t' := by
  generalize whole : c :: s = r at respaced
  cases respaced with
  | nil => cases whole
  | char d later =>
      cases whole
      exact ⟨_, rfl, later⟩

/-- DUP stands in both texts or in neither, and so does what follows it. -/
theorem drop_dup (respaced : Respaced dup quote s t) (starts : startsDup s = true) :
    startsDup t = true ∧
      (Quoting isQuote quote → Respaced dup quote (s.drop 3) (t.drop 3)) := by
  obtain ⟨a, b, c, rest, rfl, first, second, third⟩ := startsDup_cases starts
  have shown : ∀ {c : Char}, isNameChar c = true → isSpace c = false :=
    fun name => isSpace_of_shown (isBlank_of_isNameChar name)
  obtain ⟨_, rfl, second'⟩ := respaced.cons_left (shown first)
  obtain ⟨_, rfl, third'⟩ := second'.cons_left (shown second)
  obtain ⟨_, rfl, behind⟩ := third'.cons_left (shown third)
  refine ⟨starts, fun quoting => ?_⟩
  rwa [quoting.plain (isQuote_of_isNameChar first), quoting.plain (isQuote_of_isNameChar second),
    quoting.plain (isQuote_of_isNameChar third)] at behind

theorem symm (respaced : Respaced dup quote s t) : Respaced dup quote t s := by
  induction respaced with
  | nil quote => exact .nil quote
  | char c _ ih => exact .char c ih
  | gap left right kept _ ih =>
      exact .gap right left (fun asked starts => (kept asked (ih.drop_dup starts).1).symm) ih

theorem quoteOver_gap {w : List Char} (gap : Gap w) (s : List Char) :
    quoteOver none (w ++ s) = quoteOver none s := by
  rw [quoteOver_append, quoting_none.plain_all (isQuote_of_allBlank gap.blank)]

theorem allBlank_eq (respaced : Respaced dup quote s t) : allBlank s = allBlank t := by
  induction respaced with
  | nil quote => rfl
  | char c _ ih => exact congrArg (isBlank c && ·) ih
  | gap left right kept _ ih =>
      have both : ∀ {w : List Char}, Gap w → ∀ r, allBlank (w ++ r) = allBlank r := by
        intro w gap r
        rw [allBlank_append, gap.blank, Bool.true_and]
      rw [both left, both right, ih]

theorem mem_iff (shown : isSpace c = false) (respaced : Respaced dup quote s t) :
    c ∈ s ↔ c ∈ t := by
  induction respaced with
  | nil quote => rfl
  | char d _ ih => rw [List.mem_cons, List.mem_cons, ih]
  | gap left right kept _ ih =>
      rw [List.mem_append, List.mem_append, ih]
      simp only [left.not_mem shown, right.not_mem shown, false_or]

/-- A text without gaps stays as it is. -/
theorem eq_of_solid (respaced : Respaced dup quote s t) (solid : Solid s) : t = s := by
  induction respaced with
  | nil quote => rfl
  | char c _ ih => rw [ih (List.forall_mem_cons.1 solid).2]
  | gap left right kept _ ih =>
      obtain ⟨c, rest, rfl, blank⟩ := left.exists_cons
      rw [solid c (List.mem_cons_self ..)] at blank
      cases blank

/-- A character that belongs to no gap divides both texts. -/
theorem split (shown : isSpace c = false) {u v : List Char}
    (respaced : Respaced dup quote (u ++ c :: v) t) :
    ∃ u' v', t = u' ++ c :: v' ∧ Respaced dup quote u u' ∧
      Respaced dup (quoteAfter isQuote (quoteOver quote u) c) v v' := by
  generalize whole : u ++ c :: v = r at respaced
  induction respaced generalizing u with
  | nil quote => exact absurd whole (by simp)
  | char d later ih =>
      cases u with
      | nil =>
          cases whole
          exact ⟨[], _, rfl, .nil _, later⟩
      | cons e u =>
          obtain ⟨rfl, rest⟩ := List.cons.inj whole
          obtain ⟨u', v', rfl, front, back⟩ := ih rest
          exact ⟨e :: u', v', rfl, .char e front, back⟩
  | @gap w w' s t left right kept later ih =>
      -- The gap is in front of the character, as it does not hold it.
      obtain ⟨u₁, rfl, rest⟩ : ∃ u₁, u = w ++ u₁ ∧ u₁ ++ c :: v = s := by
        rcases List.append_eq_append_iff.1 whole with ⟨a, gap, rest⟩ | ⟨a, front, rest⟩
        · cases a with
          | nil => exact ⟨[], by simpa using gap.symm, by simpa using rest⟩
          | cons d a =>
              obtain ⟨rfl, -⟩ := List.cons.inj rest
              exact absurd (by simp [gap]) (left.not_mem shown)
        · exact ⟨a, front, rest.symm⟩
      obtain ⟨u', v', rfl, front, back⟩ := ih rest
      refine ⟨w' ++ u', v', by simp, .gap left right (fun asked starts => ?_) front, ?_⟩
      · exact kept asked (rest ▸ startsDup_append starts _)
      · rwa [quoteOver_gap left]

/-- The first place of a character is the same in both texts. -/
theorem cutAt? (shown : isSpace c = false) (respaced : Respaced dup quote s t)
    {before after : List Char} (cut : Text.cutAt? c s = some (before, after)) :
    ∃ before' after', Text.cutAt? c t = some (before', after') ∧
      Respaced dup quote before before' ∧
      Respaced dup (quoteAfter isQuote (quoteOver quote before) c) after after' := by
  have whole := eq_append_of_cutAt? cut
  subst whole
  obtain ⟨before', after', rfl, front, back⟩ := respaced.split shown
  have absent : c ∉ before := by
    intro member
    obtain ⟨u, v, rfl, first⟩ := List.eq_append_cons_of_mem member
    rw [List.append_assoc, List.cons_append, cutAt?_append first] at cut
    have same := congrArg List.length (Prod.mk.inj (Option.some.inj cut)).1
    rw [List.length_append, List.length_cons] at same
    omega
  exact ⟨before', after', cutAt?_append (fun member => absent ((front.mem_iff shown).2 member)) _,
    front, back⟩

theorem cutAt?_none (shown : isSpace c = false) (respaced : Respaced dup quote s t)
    (uncut : Text.cutAt? c s = none) : Text.cutAt? c t = none :=
  cutAt?_of_not_mem fun member => not_mem_of_cutAt? uncut ((respaced.mem_iff shown).2 member)

/-! ## Without what stands around -/

theorem beforeComment (respaced : Respaced dup quote s t) :
    Respaced dup quote (Text.beforeComment quote s) (Text.beforeComment quote t) := by
  have gap : ∀ {w : List Char}, Gap w → ∀ r,
      Text.beforeComment none (w ++ r) = w ++ Text.beforeComment none r := fun gap r =>
    stripComment_append (fun c member =>
      have plain := plain_of_isBlank (isBlank_of_isSpace (gap.spaces c member))
      ⟨plain.1, plain.2.1⟩) r
  induction respaced with
  | nil quote => exact .nil quote
  | @char quote s t c later ih =>
      rw [Text.beforeComment, Text.beforeComment]
      split
      · exact .nil quote
      · exact .char c ih
  | gap left right kept later ih =>
      rw [gap left, gap right]
      exact .gap left right (fun asked starts =>
        kept asked (startsDup_of_isPrefix (beforeComment_isPrefix none _) starts)) ih

theorem trimStart (quoting : Quoting isQuote quote) (respaced : Respaced dup quote s t) :
    Respaced dup quote (Text.trimStart s) (Text.trimStart t) := by
  have gap : ∀ {w : List Char}, Gap w → ∀ r, Text.trimStart (w ++ r) = Text.trimStart r :=
    fun gap r => List.dropWhile_append_of_pos (List.all_eq_true.1 gap.blank)
  induction respaced with
  | nil quote => exact .nil quote
  | @char quote s t c later ih =>
      by_cases blank : isBlank c = true
      · have same := quoting.plain (plain_of_isBlank blank).1
        rw [same] at ih
        simpa [Text.trimStart, blank] using ih quoting
      · simpa [Text.trimStart, blank] using Respaced.char c later
  | gap left right kept later ih =>
      rw [gap left, gap right]
      exact ih quoting_none

theorem trimEnd_gap {w : List Char} (gap : Gap w) (s : List Char) :
    Text.trimEnd (w ++ s) = if allBlank s then [] else w ++ Text.trimEnd s := by
  have nothing : Text.trimEnd w = [] := trimEnd_append_blank gap.blank []
  rw [trimEnd_append_eq, nothing]

theorem trimEnd (respaced : Respaced dup quote s t) :
    Respaced dup quote (Text.trimEnd s) (Text.trimEnd t) := by
  induction respaced with
  | nil quote => exact .nil quote
  | @char quote s t c later ih =>
      have same : allBlank (c :: s) = allBlank (c :: t) := (Respaced.char c later).allBlank_eq
      rw [trimEnd_cons, trimEnd_cons, ← same]
      split
      · exact .nil quote
      · exact .char c ih
  | @gap w w' s t left right kept later ih =>
      rw [trimEnd_gap left, trimEnd_gap right, ← later.allBlank_eq]
      split
      · exact .nil none
      · exact .gap left right (fun asked starts =>
          kept asked (startsDup_of_isPrefix (trimEnd_isPrefix s) starts)) ih

theorem trim (quoting : Quoting isQuote quote) (respaced : Respaced dup quote s t) :
    Respaced dup quote (Text.trim s) (Text.trim t) :=
  (respaced.trimStart quoting).trimEnd

/-! ## Words -/

/-- The first word is the same, and the texts behind it are respaced. -/
theorem word (respaced : Respaced dup quote s t) :
    s.takeWhile (fun c => !isBlank c) = t.takeWhile (fun c => !isBlank c) ∧
      Respaced dup (quoteOver quote (s.takeWhile fun c => !isBlank c))
        (s.dropWhile fun c => !isBlank c) (t.dropWhile fun c => !isBlank c) := by
  induction respaced with
  | nil quote => exact ⟨rfl, .nil quote⟩
  | @char quote s t c later ih =>
      by_cases blank : isBlank c = true
      · simpa [blank] using Respaced.char c later
      · simpa [blank] using ih
  | @gap w w' s t left right kept later ih =>
      have whole := Respaced.gap left right kept later
      obtain ⟨b, rest, rfl, blank⟩ := left.exists_cons
      obtain ⟨b', rest', rfl, blank'⟩ := right.exists_cons
      simpa [blank, blank'] using whole

theorem splitWord (quoting : Quoting isQuote quote) (respaced : Respaced dup quote s t) :
    (Text.splitWord s).1 = (Text.splitWord t).1 ∧
      Respaced dup (quoteOver quote (Text.splitWord s).1) (Text.splitWord s).2
        (Text.splitWord t).2 := by
  obtain ⟨same, later⟩ := (respaced.trim quoting).word
  exact ⟨same, later.trimStart (quoting.over_text _)⟩

/-! ## Ends -/

theorem head?_iff (shown : isSpace c = false) (respaced : Respaced dup quote s t) :
    s.head? = some c ↔ t.head? = some c := by
  have forward : ∀ {s t : List Char},
      Respaced dup quote s t → s.head? = some c → t.head? = some c := by
    intro s t respaced first
    obtain ⟨rest, rfl⟩ := List.head?_eq_some_iff.1 first
    obtain ⟨t', rfl, -⟩ := respaced.cons_left shown
    rfl
  exact ⟨forward respaced, forward respaced.symm⟩

/-- A last character that belongs to no gap is the last one of both texts. -/
theorem concat_left (shown : isSpace c = false) (respaced : Respaced dup quote (s ++ [c]) t) :
    ∃ t', t = t' ++ [c] ∧ Respaced dup quote s t' := by
  obtain ⟨t', rest, rfl, front, back⟩ := respaced.split shown
  exact ⟨t', by rw [back.nil_left], front⟩

/-- Leaving characters out that are neither blanks nor quotes. -/
theorem filter {p : Char → Bool} (spaces : ∀ c, isSpace c = true → p c = true)
    (quotes : ∀ c, isQuote c = true → p c = true) (quoting : Quoting isQuote quote)
    (respaced : Respaced dup quote s t) : Respaced False quote (s.filter p) (t.filter p) := by
  induction respaced with
  | nil quote => exact .nil quote
  | @char quote s t c later ih =>
      by_cases kept : p c = true
      · rw [List.filter_cons_of_pos kept, List.filter_cons_of_pos kept]
        exact .char c (ih (quoting.after c))
      · have plain : isQuote c = false := by
          rw [← Bool.not_eq_true]
          exact fun quote => kept (quotes c quote)
        rw [List.filter_cons_of_neg kept, List.filter_cons_of_neg kept]
        rw [quoting.plain plain] at ih
        exact ih quoting
  | gap left right kept later ih =>
      have whole : ∀ {w : List Char}, Gap w → ∀ r, (w ++ r).filter p = w ++ r.filter p := by
        intro w gap r
        rw [List.filter_append, List.filter_eq_self.2 fun c member => spaces c (gap.spaces c member)]
      rw [whole left, whole right]
      exact .gap left right False.elim (ih quoting_none)

end Respaced

end Asm86.Source
