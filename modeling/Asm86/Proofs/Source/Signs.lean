/-
# Asm86.Proofs.Source.Signs -- what signs do to the terms of a sum

A sum is written as terms, each behind a run of signs and blanks (`Summand`).  In arithmetic a
number counts as negative when the run before it has an odd number of minus signs.  The reader
keeps one sign while it goes through a run (`signAfter`):

* two minus signs in a row are refused;
* a plus sign makes it forget a minus before it.

So of a run only the last sign counts (`SignedSum.terms`), for numbers as for names (`Reading`).
That is arithmetic as long as no minus has a plus right behind it (`Reading.arithmetic`).
-/
import Asm86.Proofs.Source.Pieces

namespace Asm86.Source

open Asm86.Text
open Asm86.Machine

set_option autoImplicit false

/-! ## Runs of signs -/

/-- The signs of a run, true for a minus.  An opening bracket counts as a plus. -/
def signs (run : List Char) : List Bool :=
  run.filterMap fun c =>
    if c = '-' then some true else if c = '+' ∨ c = '[' then some false else none

/-- The last sign is a minus. -/
def endsInMinus (run : List Char) : Bool := (signs run).getLast?.getD false

/-- The sign that a run comes to in arithmetic. -/
def oddMinus (run : List Char) : Bool := run.count '-' % 2 == 1

/-- No minus sign stands right behind another. -/
def Undoubled (run : List Char) : Prop := (signs run).IsChain fun a b => ¬ (a = true ∧ b = true)

/-- No plus sign stands right behind a minus sign. -/
def Unforgetting (run : List Char) : Prop :=
  (signs run).IsChain fun a b => ¬ (a = true ∧ b = false)

instance (run : List Char) : Decidable (Unforgetting run) :=
  inferInstanceAs (Decidable (List.IsChain _ (signs run)))

theorem count_signs (run : List Char) : (signs run).count true = run.count '-' := by
  induction run with
  | nil => rfl
  | cons c run ih =>
      by_cases minus : c = '-'
      · simpa [signs, minus] using ih
      · by_cases plus : c = '+' ∨ c = '['
        · simpa [signs, minus, plus] using ih
        · simpa [signs, minus, plus] using ih

/-- Where only the last member can be true, it decides the count. -/
theorem count_of_isChain {l : List Bool} (chain : l.IsChain fun a _ => a = false) :
    l.count true = if l.getLast?.getD false then 1 else 0 := by
  induction chain with
  | nil => rfl
  | singleton a => cases a <;> rfl
  | @cons_cons a b l first _ ih =>
      subst first
      rw [List.count_cons_of_ne (by decide), ih, List.getLast?_cons_cons]

/-- Where neither a minus nor a plus stands behind a minus, the last sign is all there is. -/
theorem endsInMinus_eq_oddMinus {run : List Char} (undoubled : Undoubled run)
    (unforgetting : Unforgetting run) : endsInMinus run = oddMinus run := by
  have only : (signs run).IsChain fun a _ => a = false := by
    refine List.isChain_iff_getElem.2 fun i bound => ?_
    have both := List.isChain_iff_getElem.1 undoubled i bound
    have forgotten := List.isChain_iff_getElem.1 unforgetting i bound
    rw [← Bool.not_eq_true]
    intro minus
    cases next : (signs run)[i + 1] with
    | true => exact both ⟨minus, next⟩
    | false => exact forgotten ⟨minus, next⟩
  have count := count_of_isChain only
  rw [count_signs] at count
  unfold oddMinus endsInMinus
  rw [count]
  cases (signs run).getLast?.getD false <;> rfl

/-- The marks of expressions. -/
def signMarks : List Char := ['+', '-']

/-- The marks of memory references. -/
def bracketMarks : List Char := ['+', '-', '[', ']']

/-- Made of these marks and of blanks. -/
def OfMarks (marks run : List Char) : Prop := ∀ c ∈ run, c ∈ marks ∨ isBlank c = true

instance (marks run : List Char) : Decidable (OfMarks marks run) :=
  decidable_of_iff (run.all fun c => marks.contains c || isBlank c) (by simp [OfMarks])

theorem mem_signMarks {c : Char} : c ∈ signMarks ↔ c = '+' ∨ c = '-' := by simp [signMarks]

/-- Such a run is blank, or it is blanks, a mark, and more. -/
theorem OfMarks.first {marks run : List Char} (made : OfMarks marks run) :
    allBlank run = true ∨
      ∃ gap c rest, run = gap ++ c :: rest ∧ allBlank gap = true ∧ c ∈ marks := by
  induction run with
  | nil => exact .inl rfl
  | cons c run ih =>
      obtain ⟨first, later⟩ := List.forall_mem_cons.1 made
      rcases first with mark | blank
      · exact .inr ⟨[], c, run, rfl, rfl, mark⟩
      · rcases ih later with blanks | ⟨gap, d, rest, rfl, blanks, mark⟩
        · exact .inl (Bool.and_eq_true_iff.2 ⟨blank, blanks⟩)
        · exact .inr ⟨c :: gap, d, rest, rfl, Bool.and_eq_true_iff.2 ⟨blank, blanks⟩, mark⟩

/-- The sign after a run; none when it has two minus signs in a row. -/
def signAfter (negative : Bool) : List Char → Option Bool
  | [] => some negative
  | c :: run =>
      if c = '-' then if negative then none else signAfter true run
      else if c = '+' then signAfter false run
      else signAfter negative run

theorem signs_blank {c : Char} (blank : isBlank c = true) (run : List Char) :
    signs (c :: run) = signs run := by
  obtain ⟨plus, minus⟩ := ne_sign_of_isBlank blank
  have bracket : c ≠ '[' := by
    rintro rfl
    exact absurd blank (by decide)
  simp [signs, plus, minus, bracket]

/-- The sign after a run is the last one, the sign before it being the first. -/
theorem signAfter_some {run : List Char} (made : OfMarks signMarks run) {negative sign : Bool}
    (after : signAfter negative run = some sign) :
    ((negative :: signs run).IsChain fun a b => ¬ (a = true ∧ b = true)) ∧
      sign = (signs run).getLast?.getD negative := by
  induction run generalizing negative with
  | nil =>
      cases after
      exact ⟨.singleton _, rfl⟩
  | cons c run ih =>
      obtain ⟨first, later⟩ := List.forall_mem_cons.1 made
      rw [mem_signMarks] at first
      rcases first with (rfl | rfl) | blank
      · obtain ⟨chain, last⟩ := ih later after
        have step : signs ('+' :: run) = false :: signs run := rfl
        rw [step, List.getLast?_cons]
        exact ⟨.cons_cons (by simp) chain, last⟩
      · cases negative with
        | true => cases after
        | false =>
            obtain ⟨chain, last⟩ := ih later after
            have step : signs ('-' :: run) = true :: signs run := rfl
            rw [step, List.getLast?_cons]
            exact ⟨.cons_cons (by simp) chain, last⟩
      · obtain ⟨plus, minus⟩ := ne_sign_of_isBlank blank
        rw [signs_blank blank]
        exact ih later (by simpa [signAfter, plus, minus] using after)

theorem Terms.under_run {run : List Char} (made : OfMarks signMarks run) (negative : Bool)
    (s : List Char) :
    under negative (run ++ s) =
      (signAfter negative run).elim ⟨[], false⟩ fun sign => under sign s := by
  induction run generalizing negative with
  | nil => rfl
  | cons c run ih =>
      obtain ⟨first, later⟩ := List.forall_mem_cons.1 made
      rw [List.cons_append]
      rw [mem_signMarks] at first
      rcases first with (rfl | rfl) | blank
      · rw [under_plus, ih later]
        rfl
      · rw [under_minus]
        cases negative with
        | true => rfl
        | false =>
            rw [if_neg (by decide), ih later]
            rfl
      · obtain ⟨plus, minus⟩ := ne_sign_of_isBlank blank
        rw [under_blank blank, ih later]
        simp only [signAfter, minus, plus, ↓reduceIte]

theorem signs_allBlank {run : List Char} (blank : allBlank run = true) : signs run = [] := by
  induction run with
  | nil => rfl
  | cons c run ih =>
      obtain ⟨first, later⟩ := Bool.and_eq_true_iff.1 blank
      rw [signs_blank first, ih later]

/-! ## Sums -/

/-- A term behind a run of signs. -/
structure Summand where
  run : List Char
  word : List Char
  deriving DecidableEq, Repr

/-- Terms one after the other, and what stands behind the last. -/
def signedText (parts : List Summand) (back : List Char) : List Char :=
  parts.flatMap (fun p => p.run ++ p.word) ++ back

theorem signedText_cons (p : Summand) (parts : List Summand) (back : List Char) :
    signedText (p :: parts) back = p.run ++ (p.word ++ signedText parts back) := by
  simp [signedText]

/-- A decimal number or a name. -/
def Plain (word : List Char) : Prop :=
  (word ≠ [] ∧ ∀ c ∈ word, c.isDigit = true) ∨ isIdentifier word = true

instance (word : List Char) : Decidable (Plain word) :=
  decidable_of_iff (((!word.isEmpty) && word.all Char.isDigit) || isIdentifier word) (by simp [Plain])

/-- Decimal numbers and names with runs of these marks and blanks before them.  Every run but the
first has a sign in it.  What may stand at the end is blanks and closing brackets. -/
structure SignedSum (marks : List Char) (parts : List Summand) (back : List Char) : Prop where
  words : ∀ p ∈ parts, Plain p.word
  runs : ∀ p ∈ parts, OfMarks marks p.run
  apart : ∀ p ∈ parts.tail, signs p.run ≠ []
  ending : ∀ c ∈ back, (c = ']' ∧ c ∈ marks) ∨ isBlank c = true

instance (marks : List Char) (parts : List Summand) (back : List Char) :
    Decidable (SignedSum marks parts back) :=
  decidable_of_iff
    ((parts.all fun p => decide (Plain p.word) && decide (OfMarks marks p.run)) &&
      (parts.tail.all fun p => !(signs p.run).isEmpty) &&
      back.all fun c => (c == ']' && marks.contains c) || isBlank c) <| by
    simp only [Bool.and_eq_true, List.all_eq_true, decide_eq_true_eq, Bool.not_eq_true',
      List.isEmpty_eq_false_iff, Bool.or_eq_true, beq_iff_eq, List.contains_iff_mem]
    constructor
    · rintro ⟨⟨each, apart⟩, ending⟩
      exact ⟨fun p member => (each p member).1, fun p member => (each p member).2, apart, ending⟩
    · intro sum
      exact ⟨⟨fun p member => ⟨sum.words p member, sum.runs p member⟩, sum.apart⟩, sum.ending⟩

/-- What a word adds to a constant. -/
def amount (word : List Char) : Int :=
  if word.all Char.isDigit then (Nat.ofDigitChars 10 word 0 : Nat) else 0

/-- The sum of the numbers, those negated whose run asks for it. -/
def total (negated : List Char → Bool) (parts : List Summand) : Int :=
  (parts.map fun p => if negated p.run then -amount p.word else amount p.word).sum

theorem Plain.worded {word : List Char} (plain : Plain word) : Worded word := by
  rcases plain with ⟨nonempty, digits⟩ | identifier
  · exact ⟨nonempty, fun c member => isNameChar_of_isDigit (digits c member)⟩
  · exact .of_isIdentifier identifier

/-- A keyword is no number. -/
theorem Plain.identifier_of_keyword {word : List Char} (plain : Plain word) {keyword : String}
    (letters : keyword.toList.all Char.isAlpha = true) (found : isKeyword keyword word = true) :
    isIdentifier word = true := by
  rcases plain with ⟨nonempty, digits⟩ | identifier
  · obtain ⟨c, member⟩ := List.exists_mem_of_ne_nil _ nonempty
    have digit := digits c member
    have foreign : c.toUpper ∉ keyword.toList := by
      rw [toUpper_digit digit]
      intro inside
      have letter := List.all_eq_true.1 letters c inside
      rw [isAlpha_of_isDigit digit] at letter
      cases letter
    rw [isKeyword_eq_false member foreign] at found
    cases found
  · exact identifier

theorem amount_identifier {word : List Char} (identifier : isIdentifier word = true) :
    amount word = 0 := by
  obtain ⟨c, rest, rfl⟩ := List.exists_cons_of_ne_nil (ne_nil_of_isIdentifier identifier)
  have letter : c.isDigit = false := by
    rw [← Bool.not_eq_true]
    intro digit
    simp only [isIdentifier, Bool.and_eq_true] at identifier
    exact absurd identifier.1 (Bool.not_eq_true _ ▸ isDigit_not_start digit)
  simp [amount, letter]

theorem SignedSum.tail {marks : List Char} {p : Summand} {parts : List Summand} {back : List Char}
    (sum : SignedSum marks (p :: parts) back) : SignedSum marks parts back where
  words q member := sum.words q (List.mem_cons_of_mem _ member)
  runs q member := sum.runs q (List.mem_cons_of_mem _ member)
  apart q member := sum.apart q (List.mem_of_mem_tail member)
  ending := sum.ending

theorem SignedSum.blank_ending {parts : List Summand} {back : List Char}
    (sum : SignedSum signMarks parts back) : allBlank back = true := by
  refine List.all_eq_true.2 fun c member => ?_
  rcases sum.ending c member with ⟨rfl, mark⟩ | blank
  · exact absurd mark (by decide)
  · exact blank

/-- The term that a summand is read as. -/
def Summand.term (p : Summand) : Term := ⟨endsInMinus p.run, p.word⟩

/-- A term with another behind it is cut off at the sign between them. -/
theorem SignedSum.under_next {p q : Summand} {parts : List Summand} {back : List Char}
    (sum : SignedSum signMarks (p :: q :: parts) back) (sign : Bool) :
    Terms.under sign (p.word ++ signedText (q :: parts) back) =
      ⟨⟨sign, p.word⟩ :: (Terms.under false (signedText (q :: parts) back)).terms,
        (Terms.under false (signedText (q :: parts) back)).complete⟩ := by
  have worded := (sum.words p (by simp)).worded
  obtain ⟨gap, c, run, split, blank, signed⟩ :=
    (sum.runs q (by simp)).first.resolve_left fun blank =>
      sum.apart q (by simp) (signs_allBlank blank)
  have behind : signedText (q :: parts) back =
      gap ++ c :: (run ++ (q.word ++ signedText parts back)) := by
    rw [signedText_cons, split]
    simp
  rw [behind, Terms.under_word worded blank (mem_signMarks.1 signed), Terms.under_blanks blank]

/-- **Of a run the last sign counts.**  A sum that ends well has no two minus signs in a row, and
its terms stand under the last signs of their runs. -/
theorem SignedSum.terms {parts : List Summand} {back : List Char}
    (sum : SignedSum signMarks parts back)
    (complete : (Terms.ofText (signedText parts back)).complete = true) :
    (∀ p ∈ parts, Undoubled p.run) ∧
      (Terms.ofText (signedText parts back)).terms = parts.map Summand.term := by
  change (Terms.under false _).complete = true at complete
  change _ ∧ (Terms.under false _).terms = _
  induction parts with
  | nil =>
      have blank : Terms.under false (signedText [] back) = ⟨[], false⟩ :=
        Terms.under_append_blank sum.blank_ending false []
      rw [blank] at complete
      cases complete
  | cons p parts ih =>
      have worded := (sum.words p (List.mem_cons_self ..)).worded
      have made := sum.runs p (List.mem_cons_self ..)
      rw [signedText_cons, Terms.under_run made] at complete ⊢
      cases after : signAfter false p.run with
      | none =>
          rw [after] at complete
          cases complete
      | some sign =>
          obtain ⟨chain, last⟩ := signAfter_some made after
          have here : Undoubled p.run := (List.isChain_cons.1 chain).2
          have term : (⟨sign, p.word⟩ : Term) = p.term := by rw [last]; rfl
          simp only [after, Option.elim_some] at complete ⊢
          cases parts with
          | nil =>
              have ending : Terms.under sign (p.word ++ signedText [] back) =
                  ⟨[⟨sign, p.word⟩], true⟩ := by
                rw [show signedText [] back = back from rfl,
                  Terms.under_append_blank sum.blank_ending, Terms.under_last worded]
              rw [ending, term]
              exact ⟨by simpa using here, rfl⟩
          | cons q rest =>
              rw [sum.under_next] at complete ⊢
              obtain ⟨others, terms⟩ := ih sum.tail complete
              exact ⟨List.forall_mem_cons.2 ⟨here, others⟩, by rw [terms, term]; rfl⟩

/-! ## Adding the terms up -/

/-- What a term adds to a constant. -/
def Term.amount (t : Term) : Int :=
  if t.negative then -Source.amount t.text else Source.amount t.text

/-- A step that takes a term into the constant of `a`, and a name or register only under no
minus. -/
def AddsUp {α : Type} (step : α → Term → Except ParseError α) (constant : α → Int) : Prop :=
  ∀ a t b, Plain t.text → step a t = .ok b →
    constant b = constant a + t.amount ∧ (isIdentifier t.text = true → t.negative = false)

theorem AddsUp.foldlM {α : Type} {step : α → Term → Except ParseError α} {constant : α → Int}
    (adds : AddsUp step constant) {terms : List Term} (plain : ∀ t ∈ terms, Plain t.text)
    {start last : α} (folded : terms.foldlM step start = .ok last) :
    constant last = constant start + (terms.map Term.amount).sum ∧
      ∀ t ∈ terms, isIdentifier t.text = true → t.negative = false := by
  induction terms generalizing start with
  | nil =>
      cases folded
      simp
  | cons t terms ih =>
      obtain ⟨first, later⟩ := List.forall_mem_cons.1 plain
      rw [List.foldlM_cons] at folded
      obtain ⟨next, taken, folded⟩ := Checked.bind_eq_ok.1 folded
      obtain ⟨value, name⟩ := adds _ _ _ first taken
      obtain ⟨others, names⟩ := ih later folded
      refine ⟨?_, List.forall_mem_cons.2 ⟨name, names⟩⟩
      rw [others, value, List.map_cons, List.sum_cons, Int.add_assoc]

theorem Expr.addsUp : AddsUp Expr.addTerm Expr.value := by
  intro e t e' plain taken
  rcases plain with ⟨nonempty, digits⟩ | identifier
  · have unnamed : isIdentifier t.text = false := by
      obtain ⟨c, rest, shown⟩ := List.exists_cons_of_ne_nil nonempty
      rw [shown] at digits ⊢
      rw [isIdentifier, isDigit_not_start (digits c (List.mem_cons_self ..)), Bool.false_and]
    have all : t.text.all Char.isDigit = true := List.all_eq_true.2 digits
    simp only [Expr.addTerm, literal?_digits digits nonempty] at taken
    split at taken
    · rename_i v read
      have value := (Range.checked64_some.1 read).2
      split at taken
      · rename_i sum inside
        cases taken
        obtain ⟨w, signed, whole⟩ := Option.bind_eq_some_iff.1 inside
        refine ⟨?_, fun named => absurd named (by simp [unnamed])⟩
        rw [(Range.checked64_some.1 whole).2, (Range.checked64_some.1 signed).2, value]
        simp only [Term.amount, Source.amount, all, ↓reduceIte]
      · cases taken
    · simp [unnamed] at taken
  · simp only [Expr.addTerm, literal?_identifier identifier] at taken
    split at taken
    · rename_i accepted
      cases taken
      simp only [Bool.and_eq_true, Bool.not_eq_true'] at accepted
      refine ⟨?_, fun _ => accepted.1.2⟩
      simp [Term.amount, amount_identifier identifier]
    · cases taken

theorem MemoryRef.addRegister_disp {m m' : MemoryRef} {r : Register}
    (added : m.addRegister r = .ok m') : m'.disp = m.disp := by
  simp only [addRegister, addBase, addIndex] at added
  repeat' split at added
  all_goals first | (cases added; rfl) | cases added

theorem register_identifier {word : List Char} (plain : Plain word) {r : Register}
    (named : Register.ofName? word = some r) : isIdentifier word = true := by
  rcases plain with ⟨nonempty, digits⟩ | identifier
  · obtain ⟨c, member⟩ := List.exists_mem_of_ne_nil _ nonempty
    have free : Unreserved word := by
      apply Unreserved.of_mem member
      rw [toUpper_digit (digits c member)]
      exact isAlpha_of_isDigit (digits c member)
    rw [free.register_none] at named
    cases named
  · exact identifier

theorem MemoryRef.addsUp : AddsUp MemoryRef.addTerm fun m => m.disp.value := by
  intro m t m' plain taken
  cases named : Register.ofName? t.text with
  | none =>
      rw [MemoryRef.addTerm_disp named] at taken
      obtain ⟨disp, added, rfl⟩ := Checked.map_eq_ok.1 taken
      exact Expr.addsUp _ _ _ plain added
  | some r =>
      have identifier := register_identifier plain named
      simp only [MemoryRef.addTerm, named] at taken
      split at taken
      · cases taken
      · rename_i positive
        refine ⟨?_, fun _ => by simpa using positive⟩
        simp [Term.amount, amount_identifier identifier, MemoryRef.addRegister_disp taken]

/-! ## What is read -/

/-- The constant is the sum under these signs, and no name stands under a minus. -/
structure Reads (sign : List Char → Bool) (parts : List Summand) (constant : Int) : Prop where
  value : constant = total sign parts
  named : ∀ p ∈ parts, isIdentifier p.word = true → sign p.run = false

/-- What becomes of a sum that is taken. -/
structure Reading (parts : List Summand) (constant : Int) : Prop where
  undoubled : ∀ p ∈ parts, Undoubled p.run
  last : Reads endsInMinus parts constant

variable {marks back : List Char} {parts others : List Summand} {constant : Int}

theorem Reading.arithmetic (reading : Reading parts constant)
    (unforgetting : ∀ p ∈ parts, Unforgetting p.run) : Reads oddMinus parts constant := by
  have same : ∀ p ∈ parts, endsInMinus p.run = oddMinus p.run := fun p member =>
    endsInMinus_eq_oddMinus (reading.undoubled p member) (unforgetting p member)
  constructor
  · rw [reading.last.value, total, total]
    congr 1
    exact List.map_congr_left fun p member => by rw [same p member]
  · intro p member identifier
    rw [← same p member]
    exact reading.last.named p member identifier

/-- Terms taken in one by one make up the sum. -/
theorem SignedSum.reading {α : Type} {step : α → Term → Except ParseError α} {constant : α → Int}
    (sum : SignedSum signMarks parts back) (adds : AddsUp step constant) {start last : α}
    (zero : constant start = 0) (complete : (Terms.ofText (signedText parts back)).complete = true)
    (folded : (Terms.ofText (signedText parts back)).terms.foldlM step start = .ok last) :
    Reading parts (constant last) := by
  obtain ⟨undoubled, terms⟩ := sum.terms complete
  rw [terms] at folded
  obtain ⟨value, named⟩ := adds.foldlM (List.forall_mem_map.2 sum.words) folded
  refine ⟨undoubled, ?_, fun p member => named p.term (List.mem_map_of_mem member)⟩
  rw [value, zero, Int.zero_add, List.map_map]
  rfl

/-! ## Keywords in front -/

/-- What is left of a sum behind leading names. -/
def Skips (parts others : List Summand) : Prop :=
  ∃ skipped, parts = skipped ++ others ∧
    ∀ p ∈ skipped, allBlank p.run = true ∧ isIdentifier p.word = true

theorem Skips.refl (parts : List Summand) : Skips parts parts := ⟨[], rfl, by simp⟩

theorem Skips.cons {p : Summand} (blank : allBlank p.run = true)
    (identifier : isIdentifier p.word = true) (skips : Skips parts others) :
    Skips (p :: parts) others := by
  obtain ⟨skipped, rfl, each⟩ := skips
  exact ⟨p :: skipped, rfl, List.forall_mem_cons.2 ⟨⟨blank, identifier⟩, each⟩⟩

theorem Skips.trans {more : List Summand} (first : Skips parts others) (second : Skips others more) :
    Skips parts more := by
  obtain ⟨skipped, rfl, each⟩ := first
  obtain ⟨skipped', rfl, each'⟩ := second
  exact ⟨skipped ++ skipped', by simp, List.forall_mem_append.2 ⟨each, each'⟩⟩

theorem Skips.sum (skips : Skips parts others) (sum : SignedSum marks parts back) :
    SignedSum marks others back := by
  obtain ⟨skipped, rfl, -⟩ := skips
  induction skipped with
  | nil => exact sum
  | cons p skipped ih => exact ih sum.tail

theorem Reading.of_skips (reading : Reading others constant) (skips : Skips parts others) :
    Reading parts constant := by
  obtain ⟨skipped, rfl, each⟩ := skips
  induction skipped with
  | nil => exact reading
  | cons p skipped ih =>
      obtain ⟨⟨blank, identifier⟩, later⟩ := List.forall_mem_cons.1 each
      have unsigned := signs_allBlank blank
      obtain ⟨undoubled, value, named⟩ := ih later
      refine ⟨List.forall_mem_cons.2 ⟨?_, undoubled⟩, ?_, List.forall_mem_cons.2 ⟨fun _ => ?_, named⟩⟩
      · rw [Undoubled, unsigned]
        exact .nil
      · rw [value, total, total, List.cons_append, List.map_cons, List.sum_cons,
          amount_identifier identifier]
        simp
      · rw [endsInMinus, unsigned]
        rfl

/-- Behind a term stands a mark or a blank, if anything. -/
theorem SignedSum.head_behind {p : Summand} (sum : SignedSum marks (p :: parts) back) :
    ∀ c ∈ (signedText parts back).head?, c ∈ marks ∨ isBlank c = true := by
  intro c first
  cases parts with
  | nil => exact (sum.ending c (List.mem_of_mem_head? first)).imp_left And.right
  | cons q parts =>
      cases shown : q.run with
      | nil => exact absurd (by rw [shown]; rfl) (sum.apart q (by simp))
      | cons d run =>
          have same : d = c := by simpa [signedText, shown] using first
          exact same ▸ sum.runs q (by simp) d (by simp [shown])

/-- A word is no keyword when a mark belongs to it. -/
theorem isKeyword_marked {keyword : String} (letters : keyword.toList.all Char.isAlpha = true)
    {front w : List Char} {c : Char} (blank : allBlank front = true) (solid : Solid w)
    (mark : c ∈ bracketMarks) (rest : List Char) :
    isKeyword keyword (splitWord (front ++ (w ++ c :: rest))).1 = false := by
  have known : isBlank c = false ∧ c.toUpper.isAlpha = false := by
    simp only [bracketMarks, List.mem_cons, List.not_mem_nil, or_false] at mark
    rcases mark with rfl | rfl | rfl | rfl <;> decide
  obtain ⟨shown, foreign⟩ := known
  have member : c ∈ (splitWord (w ++ c :: rest)).1 :=
    mem_splitWord (solid.append (.cons shown (by simp [Solid]))) rest
  rw [← splitWord_trim, trim_append_left blank, splitWord_trim]
  refine isKeyword_eq_false member fun inside => ?_
  rw [List.all_eq_true.1 letters _ inside] at foreign
  cases foreign

/-- A keyword cut off a sum is its first term. -/
theorem SignedSum.strip (sum : SignedSum marks parts back) (inside : marks ⊆ bracketMarks)
    {keyword : String} (letters : keyword.toList.all Char.isAlpha = true) {rest : List Char}
    (stripped : stripKeyword? keyword (trim (signedText parts back)) = some rest) :
    ∃ others, Skips parts others ∧ rest = trim (signedText others back) := by
  simp only [stripKeyword?, splitWord_trim, Option.ite_none_right_eq_some] at stripped
  obtain ⟨found, stripped⟩ := stripped
  cases stripped
  -- A mark in front of the first blank makes the first word no keyword.
  have unmarked : ∀ (w more : List Char) {front c}, allBlank front = true → Solid w → c ∈ marks →
      signedText parts back ≠ front ++ (w ++ c :: more) := by
    intro w more front c blank solid mark same
    rw [same, isKeyword_marked letters blank solid (inside mark)] at found
    cases found
  cases parts with
  | nil =>
      have made : OfMarks marks back := fun c member => (sum.ending c member).imp_left And.right
      rcases made.first with blank | ⟨gap, c, more, shown, blank, mark⟩
      · have empty : trim back = [] := (Terms.allBlank_iff_trim back).1 blank
        exact ⟨[], .refl _, by simp [signedText, splitWord, empty, trimStart]⟩
      · exact absurd shown (unmarked [] more blank (by simp [Solid]) mark)
  | cons p parts =>
      have plain := sum.words p (List.mem_cons_self ..)
      have text := signedText_cons p parts back
      rcases (sum.runs p (List.mem_cons_self ..)).first with blank | ⟨gap, c, more, shown, blank, mark⟩
      · have apart : ∀ c ∈ (signedText parts back).head?, isBlank c = true := by
          intro c first
          refine (sum.head_behind c first).resolve_left fun mark => ?_
          obtain ⟨more, behind⟩ := List.head?_eq_some_iff.1 first
          exact unmarked p.word more blank plain.worded.solid mark (behind ▸ text)
        have cut : splitWord (signedText (p :: parts) back) = (p.word, trim (signedText parts back)) := by
          rw [text, ← splitWord_trim, trim_append_left blank, splitWord_trim,
            splitWord_word plain.worded.solid plain.worded.nonempty apart]
        rw [cut] at found ⊢
        refine ⟨parts, .cons blank (plain.identifier_of_keyword letters found) (.refl parts), rfl⟩
      · refine absurd ?_ (unmarked [] (more ++ (p.word ++ signedText parts back)) blank
          (by simp [Solid]) mark)
        rw [text, shown]
        simp

theorem SignedSum.strip_getD (sum : SignedSum marks parts back) (inside : marks ⊆ bracketMarks)
    (keyword : String) (letters : keyword.toList.all Char.isAlpha = true) :
    ∃ others, Skips parts others ∧
      (stripKeyword? keyword (trim (signedText parts back))).getD (trim (signedText parts back)) =
        trim (signedText others back) := by
  cases stripped : stripKeyword? keyword (trim (signedText parts back)) with
  | none => exact ⟨parts, .refl parts, rfl⟩
  | some rest => exact sum.strip inside letters stripped

theorem Expr.reading (sum : SignedSum signMarks parts back) {e : Expr}
    (read : Expr.parse (signedText parts back) = .ok e) : Reading parts e.value := by
  obtain ⟨others, skips, body⟩ := sum.strip_getD (by decide) "OFFSET" (by decide)
  rw [Expr.parse, body, Terms.foldText_eq_ok, Terms.ofText_trim] at read
  exact ((skips.sum sum).reading Expr.addsUp rfl read.1 read.2).of_skips skips

end Asm86.Source
