/-
# Asm86.Proofs.Text.Lines -- lines written out and read again, with and without comments

No line holds a line feed (`feed_not_mem_lines`).  Lines that hold none, and of which none ends
in a carriage return, are read back from their text when each is ended by a line feed
(`lines_unlines`).

What is left of a line without its comment has no comment, and neither has any beginning of it
(`stripComment_of_isPrefix`).  So taking a comment and the blanks before it off a line can be
done once or twice (`bare_bare`).
-/
import Asm86.Proofs.Text.Words
import Asm86.Text.Lines

namespace Asm86.Text

set_option autoImplicit false

/-! ## Lines -/

/-- A character that ends no line, also not together with the next one. -/
theorem lines_cons {c : Char} {rest : List Char} (feed : c ≠ '\n')
    (pair : c = '\r' → rest.head? ≠ some '\n') : lines (c :: rest) = onFirstLine c (lines rest) := by
  rw [lines]
  · exact feed
  · rintro rest' rfl rfl
    exact pair rfl rfl

theorem mem_onFirstLine {c : Char} {rest : List (List Char)} {line : List Char}
    (member : line ∈ onFirstLine c rest) :
    line ∈ rest ∨ line = [c] ∨ ∃ tail ∈ rest, line = c :: tail := by
  cases rest with
  | nil => exact .inr (.inl (List.mem_singleton.1 member))
  | cons first others =>
      rcases List.mem_cons.1 member with rfl | later
      · exact .inr (.inr ⟨first, List.mem_cons_self .., rfl⟩)
      · exact .inl (List.mem_cons_of_mem _ later)

theorem feed_not_mem_lines {s line : List Char} (member : line ∈ lines s) : '\n' ∉ line := by
  fun_induction lines s generalizing line with
  | case1 => exact absurd member List.not_mem_nil
  | case2 rest ih =>
      rcases List.mem_cons.1 member with rfl | later
      · exact List.not_mem_nil
      · exact ih later
  | case3 rest ih =>
      rcases List.mem_cons.1 member with rfl | later
      · exact List.not_mem_nil
      · exact ih later
  | case4 c rest feed pair ih =>
      have other : '\n' ≠ c := fun same => feed same.symm
      rcases mem_onFirstLine member with later | rfl | ⟨tail, later, rfl⟩
      · exact ih later
      · simpa using other
      · simpa [other] using ih later

/-- A line ended by a line feed. -/
theorem lines_append {line : List Char} (oneLine : '\n' ∉ line) (ends : line.getLast? ≠ some '\r')
    (rest : List Char) : lines (line ++ '\n' :: rest) = line :: lines rest := by
  induction line with
  | nil => rfl
  | cons c line ih =>
      obtain ⟨feed, later⟩ := not_or.1 (List.mem_cons.not.1 oneLine)
      have pair : c = '\r' → (line ++ '\n' :: rest).head? ≠ some '\n' := by
        rintro rfl
        cases line with
        | nil => exact absurd rfl ends
        | cons d line =>
            intro same
            cases same
            exact later (List.mem_cons_self ..)
      have ends' : line.getLast? ≠ some '\r' := by
        cases line with
        | nil => simp
        | cons d line => simpa using ends
      rw [List.cons_append, lines_cons (Ne.symm feed) pair, ih later ends']
      rfl

/-- **Lines are read back from their text.** -/
theorem lines_unlines {texts : List (List Char)}
    (whole : ∀ line ∈ texts, '\n' ∉ line ∧ line.getLast? ≠ some '\r') :
    lines (texts.flatMap fun line => line ++ ['\n']) = texts := by
  induction texts with
  | nil => rfl
  | cons line rest ih =>
      obtain ⟨⟨oneLine, ends⟩, others⟩ := List.forall_mem_cons.1 whole
      rw [List.flatMap_cons, List.append_assoc, List.singleton_append, lines_append oneLine ends,
        ih others]

/-! ## Comments -/

theorem beforeComment_beforeComment (quote : Option Char) (s : List Char) :
    beforeComment quote (beforeComment quote s) = beforeComment quote s := by
  induction s generalizing quote with
  | nil => rfl
  | cons c rest ih =>
      by_cases comment : (quote.isNone && c == ';') = true
      · rw [beforeComment, if_pos comment, beforeComment]
      · rw [beforeComment, if_neg comment, beforeComment, if_neg comment, ih]

theorem beforeComment_append {quote : Option Char} {s t : List Char}
    (whole : beforeComment quote (s ++ t) = s ++ t) : beforeComment quote s = s := by
  induction s generalizing quote with
  | nil => rfl
  | cons c rest ih =>
      rw [List.cons_append, beforeComment] at whole
      rw [beforeComment]
      split at whole
      · cases whole
      · rename_i shown
        rw [if_neg shown, ih (List.cons.inj whole).2]

/-- A beginning of what is left without the comment has no comment. -/
theorem stripComment_of_isPrefix {s line : List Char} (front : s <+: stripComment line) :
    stripComment s = s := by
  obtain ⟨t, whole⟩ := front
  refine beforeComment_append (t := t) ?_
  rw [whole]
  exact beforeComment_beforeComment none line

theorem beforeComment_isPrefix (quote : Option Char) (s : List Char) :
    beforeComment quote s <+: s := by
  induction s generalizing quote with
  | nil => exact List.prefix_refl _
  | cons c rest ih =>
      rw [beforeComment]
      split
      · exact List.nil_prefix
      · exact List.cons_prefix_cons.2 ⟨rfl, ih _⟩

theorem trimEnd_isPrefix (s : List Char) : trimEnd s <+: s := by
  rw [trimEnd, ← List.reverse_suffix, List.reverse_reverse]
  exact List.dropWhile_suffix _

/-- A text that does not end in a blank. -/
def Ended (s : List Char) : Prop := ∀ c ∈ s.getLast?, isBlank c = false

theorem ended_trimEnd (s : List Char) : Ended (trimEnd s) := by
  intro c last
  rw [trimEnd, List.getLast?_reverse] at last
  exact head?_trimStart last

theorem Ended.trimEnd_eq {s : List Char} (ended : Ended s) : trimEnd s = s := by
  have turned : trimStart s.reverse = s.reverse := by
    apply trimStart_tight
    rw [List.head?_reverse]
    exact ended
  rw [trimEnd, ← trimStart, turned, List.reverse_reverse]

theorem trim_trimEnd (s : List Char) : trim (trimEnd s) = trim s := by
  have blank : allBlank (s.reverse.takeWhile isBlank).reverse = true := by
    rw [allBlank, List.all_reverse]
    exact List.all_takeWhile
  have whole : s = trimEnd s ++ (s.reverse.takeWhile isBlank).reverse := by
    rw [trimEnd, ← List.reverse_append, List.takeWhile_append_dropWhile, List.reverse_reverse]
  conv_rhs => rw [whole, trim_append_allBlank blank]

theorem ended_append {s t : List Char} (nonempty : t ≠ []) : Ended (s ++ t) ↔ Ended t := by
  rw [Ended, List.getLast?_append_of_ne_nil _ nonempty, Ended]

/-- A line without its comment and the blanks before that. -/
def bare (line : List Char) : List Char := trimEnd (stripComment line)

theorem bare_isPrefix (line : List Char) : bare line <+: line :=
  (trimEnd_isPrefix _).trans (beforeComment_isPrefix none line)

theorem stripComment_bare (line : List Char) : stripComment (bare line) = bare line :=
  stripComment_of_isPrefix (trimEnd_isPrefix _)

theorem bare_bare (line : List Char) : bare (bare line) = bare line := by
  rw [bare, stripComment_bare]
  exact (ended_trimEnd _).trimEnd_eq

end Asm86.Text
