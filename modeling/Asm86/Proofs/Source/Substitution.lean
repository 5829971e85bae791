/-
# Asm86.Proofs.Source.Substitution -- constants replace whole words outside quotes

A line falls into stretches in one way (`Cut`): quoted text up to the quote that closes it or to
the end of the line, runs of name characters that are as long as they can be, and single other
characters.  The reader finds them with one quote and one unfinished word in hand.  That comes to
replacing the runs, each by itself (`Cut.substitute_eq`): a value is not looked through again,
and text in quotes stays what it is.
-/
import Asm86.Proofs.Text.Words
import Asm86.Source.Constants

namespace Asm86.Source.Constants

open Asm86.Text

set_option autoImplicit false

/-- A part of a line that is replaced or kept as a whole. -/
inductive Stretch where
  | quoted (text : List Char)
  | word (run : List Char)
  | other (c : Char)
  deriving DecidableEq, Repr

namespace Stretch

def text : Stretch → List Char
  | .quoted text => text
  | .word run => run
  | .other c => [c]

/-- What comes out for a stretch: the value of a run that is a name of a constant and starts with
no digit, and else the stretch. -/
def expanded (defs : Constants) : Stretch → List Char
  | .word run => if run.head?.any Char.isDigit then run else (defs.lookup run).getD run
  | stretch => stretch.text

end Stretch

/-- The stretches of a line. -/
inductive Cut : List Char → List Stretch → Prop where
  | nil : Cut [] []
  | closed {q : Char} {inner rest : List Char} {others : List Stretch} (quote : isQuote q = true)
      (inside : q ∉ inner) (later : Cut rest others) :
      Cut (q :: (inner ++ q :: rest)) (.quoted (q :: (inner ++ [q])) :: others)
  | unclosed {q : Char} {inner : List Char} (quote : isQuote q = true) (inside : q ∉ inner) :
      Cut (q :: inner) [.quoted (q :: inner)]
  | word {run rest : List Char} {others : List Stretch} (nonempty : run ≠ [])
      (named : ∀ c ∈ run, isNameChar c = true) (whole : ∀ c ∈ rest.head?, isNameChar c = false)
      (later : Cut rest others) : Cut (run ++ rest) (.word run :: others)
  | other {c : Char} {rest : List Char} {others : List Stretch} (unquoted : isQuote c = false)
      (unnamed : isNameChar c = false) (later : Cut rest others) :
      Cut (c :: rest) (.other c :: others)

/-! ## Every line has its stretches -/

/-- A run of name characters reaches up to the first other character. -/
theorem takeWhile_run {run rest : List Char} (named : ∀ c ∈ run, isNameChar c = true)
    (whole : ∀ c ∈ rest.head?, isNameChar c = false) :
    (run ++ rest).takeWhile isNameChar = run ∧ (run ++ rest).dropWhile isNameChar = rest := by
  have front : rest.takeWhile isNameChar = [] ∧ rest.dropWhile isNameChar = rest := by
    cases rest with
    | nil => exact ⟨rfl, rfl⟩
    | cons c rest => simp [whole c rfl]
  rw [List.takeWhile_append_of_pos named, List.dropWhile_append_of_pos named, front.1, front.2,
    List.append_nil]
  exact ⟨rfl, rfl⟩

theorem exists_cut (line : List Char) : ∃ stretches, Cut line stretches := by
  induction size : line.length using Nat.strong_induction_on generalizing line with
  | _ n ih =>
      subst size
      cases line with
      | nil => exact ⟨[], .nil⟩
      | cons c rest =>
          by_cases quote : isQuote c = true
          · by_cases again : c ∈ rest
            · obtain ⟨inner, behind, rfl, inside⟩ := List.eq_append_cons_of_mem again
              have shorter : behind.length < (c :: (inner ++ c :: behind)).length := by
                simp only [List.length_cons, List.length_append]
                omega
              obtain ⟨others, later⟩ := ih _ shorter behind rfl
              exact ⟨_, .closed quote inside later⟩
            · exact ⟨_, .unclosed quote again⟩
          · by_cases name : isNameChar c = true
            · have shorter : ((c :: rest).dropWhile isNameChar).length < (c :: rest).length := by
                have drop := length_dropWhile_le isNameChar rest
                simp only [List.dropWhile_cons, name, ↓reduceIte, List.length_cons]
                omega
              obtain ⟨others, later⟩ := ih _ shorter _ rfl
              have split : (c :: rest).takeWhile isNameChar ++ (c :: rest).dropWhile isNameChar =
                  c :: rest := List.takeWhile_append_dropWhile
              have started : (c :: rest).takeWhile isNameChar ≠ [] := by simp [name]
              have ended : ∀ d ∈ ((c :: rest).dropWhile isNameChar).head?, isNameChar d = false := by
                intro d first
                have stop := List.head?_dropWhile_not isNameChar (c :: rest)
                rwa [Option.mem_def.1 first] at stop
              have run := Cut.word started (fun _ => List.mem_takeWhile_imp) ended later
              rw [split] at run
              exact ⟨_, run⟩
            · obtain ⟨others, later⟩ := ih _ (Nat.lt_succ_self rest.length) rest rfl
              exact ⟨_, .other (by simpa using quote) (by simpa using name) later⟩

theorem append_cons_inj {q : Char} {inner inner' rest rest' : List Char} (inside : q ∉ inner)
    (inside' : q ∉ inner') (same : inner ++ q :: rest = inner' ++ q :: rest') :
    inner = inner' ∧ rest = rest' := by
  have cut := cutAt?_append inside rest
  rw [same, cutAt?_append inside'] at cut
  cases cut
  exact ⟨rfl, rfl⟩

/-- What the first character says about the first stretch. -/
theorem Cut.cons_cases {c : Char} {rest : List Char} {stretches : List Stretch}
    (cut : Cut (c :: rest) stretches) :
    (isQuote c = true ∧
      ((∃ inner behind others, rest = inner ++ c :: behind ∧ c ∉ inner ∧ Cut behind others ∧
        stretches = .quoted (c :: (inner ++ [c])) :: others) ∨
      (c ∉ rest ∧ stretches = [.quoted (c :: rest)]))) ∨
    (isNameChar c = true ∧
      ∃ others, Cut ((c :: rest).dropWhile isNameChar) others ∧
        stretches = .word ((c :: rest).takeWhile isNameChar) :: others) ∨
    (isQuote c = false ∧ isNameChar c = false ∧
      ∃ others, Cut rest others ∧ stretches = .other c :: others) := by
  generalize whole : c :: rest = line at cut
  cases cut with
  | nil => cases whole
  | closed quote inside later =>
      cases whole
      exact .inl ⟨quote, .inl ⟨_, _, _, rfl, inside, later, rfl⟩⟩
  | unclosed quote inside =>
      cases whole
      exact .inl ⟨quote, .inr ⟨inside, rfl⟩⟩
  | @word run behind others nonempty named first later =>
      obtain ⟨d, tail, rfl⟩ := List.exists_cons_of_ne_nil nonempty
      have same : c = d := (List.cons.inj whole).1
      obtain ⟨taken, left⟩ := takeWhile_run named first
      refine .inr (.inl ⟨same ▸ named d (List.mem_cons_self ..), others, ?_, ?_⟩)
      · rwa [left]
      · rw [taken]
  | other unquoted unnamed later =>
      cases whole
      exact .inr (.inr ⟨unquoted, unnamed, _, later, rfl⟩)

/-- A line has no other stretches. -/
theorem Cut.unique {line : List Char} {stretches stretches' : List Stretch}
    (cut : Cut line stretches) (cut' : Cut line stretches') : stretches = stretches' := by
  induction cut generalizing stretches' with
  | nil =>
      generalize empty : ([] : List Char) = line at cut'
      cases cut' with
      | nil => rfl
      | closed => cases empty
      | unclosed => cases empty
      | word nonempty => exact absurd (List.append_eq_nil_iff.1 empty.symm).1 nonempty
      | other => cases empty
  | @closed q inner rest others quote inside later ih =>
      rcases cut'.cons_cases with
        ⟨-, ⟨inner', rest', others', whole, inside', later', rfl⟩ | ⟨absent, -⟩⟩ |
        ⟨name, -⟩ | ⟨unquoted, -⟩
      · obtain ⟨rfl, rfl⟩ := append_cons_inj inside inside' whole
        rw [ih later']
      · exact absurd (List.mem_append_right _ (List.mem_cons_self ..)) absent
      · rw [isQuote_of_isNameChar name] at quote
        cases quote
      · rw [unquoted] at quote
        cases quote
  | @unclosed q inner quote inside =>
      rcases cut'.cons_cases with ⟨-, ⟨inner', rest', others', rfl, -⟩ | ⟨-, rfl⟩⟩ | ⟨name, -⟩ |
        ⟨unquoted, -⟩
      · exact absurd (List.mem_append_right _ (List.mem_cons_self ..)) inside
      · rfl
      · rw [isQuote_of_isNameChar name] at quote
        cases quote
      · rw [unquoted] at quote
        cases quote
  | @word run rest others nonempty named whole later ih =>
      obtain ⟨c, tail, rfl⟩ := List.exists_cons_of_ne_nil nonempty
      have name : isNameChar c = true := named c (List.mem_cons_self ..)
      obtain ⟨taken, left⟩ := takeWhile_run named whole
      rw [List.cons_append] at taken left cut'
      rcases cut'.cons_cases with ⟨quote, -⟩ | ⟨-, others', later', rfl⟩ | ⟨-, unnamed, -⟩
      · rw [isQuote_of_isNameChar name] at quote
        cases quote
      · rw [left] at later'
        rw [taken, ih later']
      · rw [unnamed] at name
        cases name
  | @other c rest others unquoted unnamed later ih =>
      rcases cut'.cons_cases with ⟨quote, -⟩ | ⟨name, -⟩ | ⟨-, -, others', later', rfl⟩
      · rw [unquoted] at quote
        cases quote
      · rw [unnamed] at name
        cases name
      · rw [ih later']

/-- The stretches together are the line. -/
theorem Cut.text_eq {line : List Char} {stretches : List Stretch} (cut : Cut line stretches) :
    stretches.flatMap Stretch.text = line := by
  induction cut with
  | nil => rfl
  | closed quote inside later ih => simp [Stretch.text, ih]
  | unclosed quote inside => simp [Stretch.text]
  | word nonempty named whole later ih => simp [Stretch.text, ih]
  | other unquoted unnamed later ih => simp [Stretch.text, ih]

/-! ## Reading a line -/

variable (defs : Constants)

theorem substituteFrom_closed {q : Char} {inner : List Char} (inside : q ∉ inner)
    (rest : List Char) :
    defs.substituteFrom (some q) [] (inner ++ q :: rest) = inner ++ q :: defs.substitute rest := by
  induction inner with
  | nil =>
      show Constants.expandWord defs [] ++
        q :: defs.substituteFrom (quoteAfter isQuote (some q) q) [] rest = _
      have left : quoteAfter isQuote (some q) q = none := by simp [quoteAfter]
      rw [left]
      rfl
  | cons c inner ih =>
      obtain ⟨differs, later⟩ := not_or.1 (List.mem_cons.not.1 inside)
      have stays : quoteAfter isQuote (some q) c = some q := by simp [quoteAfter, Ne.symm differs]
      show Constants.expandWord defs [] ++ c ::
        defs.substituteFrom (quoteAfter isQuote (some q) c) [] (inner ++ q :: rest) = _
      rw [stays, ih later]
      rfl

theorem substituteFrom_unclosed {q : Char} {inner : List Char} (inside : q ∉ inner) :
    defs.substituteFrom (some q) [] inner = inner := by
  induction inner with
  | nil => rfl
  | cons c inner ih =>
      obtain ⟨differs, later⟩ := not_or.1 (List.mem_cons.not.1 inside)
      have stays : quoteAfter isQuote (some q) c = some q := by simp [quoteAfter, Ne.symm differs]
      show Constants.expandWord defs [] ++ c ::
        defs.substituteFrom (quoteAfter isQuote (some q) c) [] inner = _
      rw [stays, ih later]
      rfl

/-- Name characters are put to the unfinished word. -/
theorem substituteFrom_named {run : List Char} (named : ∀ c ∈ run, isNameChar c = true)
    (word rest : List Char) :
    defs.substituteFrom none word (run ++ rest) = defs.substituteFrom none (word ++ run) rest := by
  induction run generalizing word with
  | nil => rw [List.nil_append, List.append_nil]
  | cons c run ih =>
      obtain ⟨name, later⟩ := List.forall_mem_cons.1 named
      rw [List.cons_append, substituteFrom]
      simp only [Option.isNone_none, name, Bool.and_self, ↓reduceIte]
      rw [ih later, List.append_assoc, List.singleton_append]

/-- A word ends before the first character that is not part of a name. -/
theorem substituteFrom_flush {rest : List Char} (ended : ∀ c ∈ rest.head?, isNameChar c = false)
    (word : List Char) :
    defs.substituteFrom none word rest = defs.expandWord word ++ defs.substitute rest := by
  cases rest with
  | nil =>
      show defs.expandWord word = defs.expandWord word ++ []
      rw [List.append_nil]
  | cons c rest =>
      have unnamed : isNameChar c = false := ended c rfl
      simp only [substitute, substituteFrom, Option.isNone_none, unnamed, Bool.and_false,
        Bool.false_eq_true, ↓reduceIte]
      rfl

theorem expandWord_eq_expanded {run : List Char} (nonempty : run ≠ []) :
    defs.expandWord run = Stretch.expanded defs (.word run) := by
  obtain ⟨c, rest, rfl⟩ := List.exists_cons_of_ne_nil nonempty
  rfl

/-- A character that is part of no name is copied. -/
theorem substitute_cons {c : Char} (unnamed : isNameChar c = false) (rest : List Char) :
    defs.substitute (c :: rest) =
      c :: defs.substituteFrom (quoteAfter isQuote none c) [] rest := by
  simp only [substitute, substituteFrom, Option.isNone_none, unnamed, Bool.and_false,
    Bool.false_eq_true, ↓reduceIte]
  rfl

theorem substitute_quote {q : Char} (quote : isQuote q = true) (rest : List Char) :
    defs.substitute (q :: rest) = q :: defs.substituteFrom (some q) [] rest := by
  have unnamed : isNameChar q = false := by
    rw [← Bool.not_eq_true]
    intro name
    rw [isQuote_of_isNameChar name] at quote
    cases quote
  rw [substitute_cons defs unnamed, quoteAfter_quote quote]

/-- **Replacing names is replacing the runs of a line one by one.** -/
theorem Cut.substitute_eq {line : List Char} {stretches : List Stretch}
    (cut : Cut line stretches) :
    defs.substitute line = stretches.flatMap (Stretch.expanded defs) := by
  induction cut with
  | nil => rfl
  | closed quote inside later ih =>
      rw [substitute_quote defs quote, substituteFrom_closed defs inside, ih]
      simp [Stretch.expanded, Stretch.text]
  | unclosed quote inside =>
      rw [substitute_quote defs quote, substituteFrom_unclosed defs inside]
      simp [Stretch.expanded, Stretch.text]
  | word nonempty named whole later ih =>
      rw [substitute, substituteFrom_named defs named, List.nil_append,
        substituteFrom_flush defs whole, expandWord_eq_expanded defs nonempty, ih,
        List.flatMap_cons]
  | other unquoted unnamed later ih =>
      rw [substitute_cons defs unnamed, quoteAfter_plain unquoted, ← substitute, ih]
      rfl

variable {defs}

/-- Constants count only by what they say about the runs of a line. -/
theorem expanded_congr {defs' : Constants} {stretches : List Stretch}
    (agree : ∀ run, .word run ∈ stretches → defs.lookup run = defs'.lookup run) :
    stretches.flatMap (Stretch.expanded defs) = stretches.flatMap (Stretch.expanded defs') := by
  refine List.flatMap_congr fun stretch member => ?_
  cases stretch with
  | quoted text => rfl
  | word run => simp only [Stretch.expanded, agree run member]
  | other c => rfl

/-- **Constants replace whole words outside quotes, and nothing else.**  A line has its stretches in
one way; the runs among them are replaced by their values and all else is copied.  So a line
without names of constants stays as it is, and constants that agree on its runs do the same. -/
theorem substitute_replaces_words (line : List Char) :
    ∃ stretches, Cut line stretches ∧ (∀ others, Cut line others → others = stretches) ∧
      (∀ defs : Constants, defs.substitute line = stretches.flatMap (Stretch.expanded defs)) ∧
      (∀ defs : Constants, (∀ run, .word run ∈ stretches → defs.lookup run = none) →
        defs.substitute line = line) ∧
      ∀ defs defs' : Constants,
        (∀ run, .word run ∈ stretches → defs.lookup run = defs'.lookup run) →
        defs.substitute line = defs'.substitute line := by
  obtain ⟨stretches, cut⟩ := exists_cut line
  refine ⟨stretches, cut, fun others cut' => cut'.unique cut, fun defs => cut.substitute_eq defs,
    fun defs unknown => ?_, fun defs defs' agree => ?_⟩
  · have kept : stretches.flatMap (Stretch.expanded defs) = stretches.flatMap Stretch.text := by
      refine List.flatMap_congr fun stretch member => ?_
      cases stretch with
      | quoted text => rfl
      | word run => simp [Stretch.expanded, Stretch.text, unknown run member]
      | other c => rfl
    rw [cut.substitute_eq defs, kept, cut.text_eq]
  · rw [cut.substitute_eq defs, cut.substitute_eq defs', expanded_congr agree]

/-- A name that is a word, text in quotes and a part of a longer word, and a value that holds it. -/
theorem substitute_replaces_words_once :
    Constants.substitute [(['X'], ['X', '+', '1'])] "X'X'X1".toList = "X+1'X'X1".toList ∧
      Constants.substitute [(['Y'], ['2'])] "X'X'X1".toList = "X'X'X1".toList := by
  have last : Cut (['X', '1'] ++ []) [.word ['X', '1']] :=
    .word (by decide) (List.all_eq_true.1 (by decide)) (by simp) .nil
  have quoted : Cut ('\x27' :: (['X'] ++ '\x27' :: ['X', '1'])) _ :=
    .closed (by decide) (by decide) last
  have first : ∀ c ∈ ('\x27' :: (['X'] ++ '\x27' :: ['X', '1'])).head?, isNameChar c = false := by
    rintro c ⟨⟩
    decide
  have cut : Cut (['X'] ++ '\x27' :: (['X'] ++ '\x27' :: ['X', '1']))
      [.word ['X'], .quoted ['\x27', 'X', '\x27'], .word ['X', '1']] :=
    .word (by decide) (List.all_eq_true.1 (by decide)) first quoted
  obtain ⟨stretches, -, unique, expanded, kept, -⟩ := substitute_replaces_words "X'X'X1".toList
  obtain rfl := unique _ cut
  constructor
  · rw [expanded]
    decide
  · refine kept _ fun run member => ?_
    have known : run = ['X'] ∨ run = ['X', '1'] := by simpa using member
    rcases known with rfl | rfl <;> decide

end Asm86.Source.Constants
