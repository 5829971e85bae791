/-
# Asm86.Proofs.Text.Decimal -- decimal numerals read back

A run of decimal digits is read as the number it stands for (`literal?_digits`), so the
digits of a number inside signed 64 bits read back as the number (`literal?_decimal`).  A name is
never a number literal (`literal?_identifier`).  What is one is made of letters, digits and signs, or
is a quoted character (`literal?_cases`).
-/
import Asm86.Proofs.Text.Words
import Asm86.Text.Numeral

namespace Asm86.Text

set_option autoImplicit false

/-- The digits of a number in base ten. -/
def decimal (n : Nat) : List Char := Nat.toDigits 10 n

theorem isDigit_of_mem_decimal {n : Nat} {c : Char} (member : c ∈ decimal n) : c.isDigit = true :=
  Nat.isDigit_of_mem_toDigits (by decide) (by decide) member

theorem decimal_ne_nil (n : Nat) : decimal n ≠ [] := Nat.toDigits_ne_nil

/-! ## Digits -/

theorem toNat_of_isDigit {c : Char} (digit : c.isDigit = true) : 48 ≤ c.toNat ∧ c.toNat ≤ 57 := by
  simp only [Char.isDigit, Bool.and_eq_true, decide_eq_true_eq, ge_iff_le,
    UInt32.le_iff_toNat_le] at digit
  exact digit

theorem ne_of_isDigit {c d : Char} (digit : c.isDigit = true) (other : d.isDigit = false) : c ≠ d := by
  rintro rfl
  rw [digit] at other
  cases other

theorem isNameChar_of_isDigit {c : Char} (digit : c.isDigit = true) : isNameChar c = true := by
  simp [isNameChar, Char.isAlphanum, digit]

theorem isAlpha_of_isDigit {c : Char} (digit : c.isDigit = true) : c.isAlpha = false := by
  have codes := toNat_of_isDigit digit
  rw [← Bool.not_eq_true]
  intro letter
  simp only [Char.isAlpha, Char.isUpper, Char.isLower, Bool.or_eq_true, Bool.and_eq_true,
    decide_eq_true_eq, ge_iff_le, UInt32.le_iff_toNat_le] at letter
  change (65 ≤ c.toNat ∧ c.toNat ≤ 90) ∨ 97 ≤ c.toNat ∧ c.toNat ≤ 122 at letter
  omega

/-- No identifier starts with a digit. -/
theorem isDigit_not_start {c : Char} (digit : c.isDigit = true) :
    (c.isAlpha || isNameMark c) = false := by
  have marks : isNameMark c = false := by
    rw [← Bool.not_eq_true]
    intro mark
    simp only [isNameMark, Bool.or_eq_true, beq_iff_eq] at mark
    rcases mark with (((rfl | rfl) | rfl) | rfl) | rfl <;> exact absurd digit (by decide)
  rw [isAlpha_of_isDigit digit, marks]
  rfl

theorem digitValue?_digit {c : Char} (digit : c.isDigit = true) :
    digitValue? c = some (c.toNat - 48) := by
  simp [digitValue?, toNat_of_isDigit digit]

theorem toLower_digit {c : Char} (digit : c.isDigit = true) : c.toLower = c := by
  have letters := isAlpha_of_isDigit digit
  rw [Char.isAlpha, Bool.or_eq_false_iff] at letters
  exact Char.toLower_eq_of_not_isUpper (Bool.not_eq_true _ ▸ letters.1)

theorem toUpper_digit {c : Char} (digit : c.isDigit = true) : c.toUpper = c := by
  have letters := isAlpha_of_isDigit digit
  rw [Char.isAlpha, Bool.or_eq_false_iff] at letters
  exact Char.toUpper_eq_of_not_isLower (Bool.not_eq_true _ ▸ letters.2)

theorem lower_digits {s : List Char} (digits : ∀ c ∈ s, c.isDigit = true) : lower s = s := by
  rw [lower, List.map_congr_left fun c member => toLower_digit (digits c member), List.map_id']

/-! ## Numerals -/

theorem readDigits_digits {s : List Char} (digits : ∀ c ∈ s, c.isDigit = true) (acc : Nat) :
    readDigits 10 acc s = some (Nat.ofDigitChars 10 s acc) := by
  induction s generalizing acc with
  | nil => rfl
  | cons c rest ih =>
      obtain ⟨first, later⟩ := List.forall_mem_cons.1 digits
      have bounds := toNat_of_isDigit first
      have small : c.toNat - 48 < 10 := by omega
      simp only [readDigits, digitValue?_digit first, small, ↓reduceIte, ih later,
        Nat.ofDigitChars, List.foldl_cons, Nat.mul_comm acc 10]
      rfl

theorem readSigned?_digits {s : List Char} (digits : ∀ c ∈ s, c.isDigit = true) (nonempty : s ≠ []) :
    readSigned? 10 s = Range.checked64 (Nat.ofDigitChars 10 s 0 : Nat) := by
  obtain ⟨c, rest, rfl⟩ := List.exists_cons_of_ne_nil nonempty
  have first := digits c (List.mem_cons_self ..)
  have plus : c ≠ '+' := ne_of_isDigit first (by decide)
  have minus : c ≠ '-' := ne_of_isDigit first (by decide)
  simp [readSigned?, plus, minus, readNat?, readDigits_digits digits]

theorem readNumeral?_digits {s : List Char} (digits : ∀ c ∈ s, c.isDigit = true) (nonempty : s ≠ []) :
    readNumeral? s = Range.checked64 (Nat.ofDigitChars 10 s 0 : Nat) := by
  have last := digits _ (List.getLast_mem nonempty)
  have notH : s.getLast nonempty ≠ 'h' := ne_of_isDigit last (by decide)
  have notB : s.getLast nonempty ≠ 'b' := ne_of_isDigit last (by decide)
  rw [← readSigned?_digits digits nonempty]
  unfold readNumeral?
  split
  · -- A second character `x` is no digit.
    exact absurd (digits 'x' (by simp)) (by decide)
  · rw [List.getLast?_eq_some_getLast nonempty]
    split <;> simp_all

theorem quotedCode?_unquoted {c : Char} (plain : isQuote c = false) (rest : List Char) :
    quotedCode? (c :: rest) = none := by
  unfold quotedCode?
  split
  · rename_i same
    cases same
    simp [plain]
  · rfl

/-- A run of decimal digits is a literal as long as its value is inside 64 bits. -/
theorem literal?_digits {s : List Char} (digits : ∀ c ∈ s, c.isDigit = true) (nonempty : s ≠ []) :
    literal? s = Range.checked64 (Nat.ofDigitChars 10 s 0 : Nat) := by
  have solid : Solid s := fun c member =>
    isBlank_of_isNameChar (isNameChar_of_isDigit (digits c member))
  rw [← readNumeral?_digits digits nonempty]
  obtain ⟨c, rest, rfl⟩ := List.exists_cons_of_ne_nil nonempty
  have first := digits c (List.mem_cons_self ..)
  have unquoted := quotedCode?_unquoted (isQuote_of_isNameChar (isNameChar_of_isDigit first)) rest
  simp only [literal?, trim_tight solid.tight, unquoted, lower_digits digits, first, ↓reduceIte]

theorem literal?_decimal {n : Nat} (inside : n ≤ 9223372036854775807) :
    literal? (decimal n) = some (n : Int) := by
  have value : Nat.ofDigitChars 10 (decimal n) 0 = n :=
    Nat.ofDigitChars_toDigits (by decide) (by decide)
  have bounds : Range.signed64 (n : Int) = true := by
    simp only [Range.signed64, Bool.and_eq_true, decide_eq_true_eq]
    omega
  rw [literal?_digits (fun c => isDigit_of_mem_decimal) (decimal_ne_nil n), value, Range.checked64,
    if_pos bounds]

theorem literal?_identifier {s : List Char} (identifier : isIdentifier s = true) :
    literal? s = none := by
  have solid := solid_of_isIdentifier identifier
  obtain ⟨c, rest, rfl⟩ := List.exists_cons_of_ne_nil (ne_nil_of_isIdentifier identifier)
  have name := isNameChar_of_isIdentifier identifier c (List.mem_cons_self ..)
  have letter : c.isDigit = false := by
    rw [← Bool.not_eq_true]
    intro digit
    simp only [isIdentifier, Bool.and_eq_true] at identifier
    exact absurd identifier.1 (Bool.not_eq_true _ ▸ isDigit_not_start digit)
  simp only [literal?, trim_tight solid.tight,
    quotedCode?_unquoted (isQuote_of_isNameChar name) rest, letter, Bool.false_eq_true, ↓reduceIte]

/-! ## What numerals are made of -/

/-- A letter, a digit or a sign. -/
def isNumeralChar (c : Char) : Bool := c.isAlphanum || c == '+' || c == '-'

theorem isAlphanum_of_digitValue? {c : Char} {d : Nat} (value : digitValue? c = some d) :
    c.isAlphanum = true := by
  have codes : (48 ≤ c.toNat ∧ c.toNat ≤ 57) ∨ (97 ≤ c.toNat ∧ c.toNat ≤ 122) ∨
      (65 ≤ c.toNat ∧ c.toNat ≤ 90) := by
    by_contra others
    obtain ⟨digit, small, big⟩ := not_or.1 others |>.imp_right not_or.1
    simp [digitValue?, digit, small, big] at value
  simp only [Char.isAlphanum, Char.isAlpha, Char.isUpper, Char.isLower, Char.isDigit,
    Bool.or_eq_true, Bool.and_eq_true, decide_eq_true_eq, ge_iff_le, UInt32.le_iff_toNat_le]
  change ((65 ≤ c.toNat ∧ c.toNat ≤ 90) ∨ 97 ≤ c.toNat ∧ c.toNat ≤ 122) ∨
    48 ≤ c.toNat ∧ c.toNat ≤ 57
  omega

theorem isAlphanum_of_readDigits {radix acc n : Nat} {s : List Char}
    (read : readDigits radix acc s = some n) : ∀ c ∈ s, c.isAlphanum = true := by
  induction s generalizing acc with
  | nil => exact fun _ member => absurd member List.not_mem_nil
  | cons c s ih =>
      unfold readDigits at read
      split at read
      · rename_i d value
        split at read
        · exact List.forall_mem_cons.2 ⟨isAlphanum_of_digitValue? value, ih read⟩
        · cases read
      · cases read

theorem isNumeralChar_of_readSigned? {radix : Nat} {v : Int} {s : List Char}
    (read : readSigned? radix s = some v) : ∀ c ∈ s, isNumeralChar c = true := by
  have digits : ∀ {t : List Char} {f : Nat → Option Int}, (readNat? radix t).bind f = some v →
      ∀ c ∈ t, isNumeralChar c = true := by
    intro t f found c member
    obtain ⟨n, number, -⟩ := Option.bind_eq_some_iff.1 found
    rw [readNat?] at number
    split at number
    · cases number
    · simp [isNumeralChar, isAlphanum_of_readDigits number c member]
  unfold readSigned? at read
  split at read
  · exact List.forall_mem_cons.2 ⟨by decide, digits read⟩
  · exact List.forall_mem_cons.2 ⟨by decide, digits read⟩
  · exact digits read

theorem isNumeralChar_of_readNumeral? {v : Int} {s : List Char} (read : readNumeral? s = some v) :
    ∀ c ∈ s, isNumeralChar c = true := by
  have ending : ∀ {d : Char} {radix : Nat}, s.getLast? = some d → isNumeralChar d = true →
      readSigned? radix s.dropLast = some v → ∀ c ∈ s, isNumeralChar c = true := by
    intro d radix last letter found c member
    obtain ⟨front, rfl⟩ := List.getLast?_eq_some_iff.1 last
    rw [List.dropLast_concat] at found
    rcases List.mem_append.1 member with inside | final
    · exact isNumeralChar_of_readSigned? found c inside
    · exact List.mem_singleton.1 final ▸ letter
  unfold readNumeral? at read
  split at read
  · exact List.forall_mem_cons.2 ⟨by decide,
      List.forall_mem_cons.2 ⟨by decide, isNumeralChar_of_readSigned? read⟩⟩
  · split at read
    · rename_i last
      exact ending last (by decide) read
    · rename_i last
      exact ending last (by decide) read
    · exact isNumeralChar_of_readSigned? read

theorem isNumeralChar_of_toLower {c : Char} (numeral : isNumeralChar c.toLower = true) :
    isNumeralChar c = true := by
  by_cases capital : c.isUpper = true
  · simp [isNumeralChar, Char.isAlphanum, Char.isAlpha, capital]
  · rwa [Char.toLower_eq_of_not_isUpper capital] at numeral

/-- Neither a blank nor a quote is part of a numeral. -/
theorem shown_of_isNumeralChar {c : Char} (numeral : isNumeralChar c = true) :
    isBlank c = false ∧ isQuote c = false := by
  simp only [isNumeralChar, Bool.or_eq_true, beq_iff_eq] at numeral
  rcases numeral with (name | rfl) | rfl
  · have inside : isNameChar c = true := by simp [isNameChar, name]
    exact ⟨isBlank_of_isNameChar inside, isQuote_of_isNameChar inside⟩
  · decide
  · decide

/-- A literal is a numeral or one character between two equal quotes. -/
theorem literal?_cases {s : List Char} {v : Int} (read : literal? s = some v) :
    (∀ c ∈ trim s, isNumeralChar c = true) ∨ ∃ q c, isQuote q = true ∧ trim s = [q, c, q] := by
  unfold literal? at read
  generalize trim s = body at read ⊢
  simp only at read
  split at read
  · rename_i code quoted
    unfold quotedCode? at quoted
    split at quoted
    · rename_i q c q'
      split at quoted
      · rename_i test
        simp only [Bool.and_eq_true, beq_iff_eq] at test
        exact .inr ⟨q, c, test.1.1, by rw [test.1.2]⟩
      · cases quoted
    · cases quoted
  · split at read
    · rename_i first rest
      split at read
      · refine .inl fun c member => isNumeralChar_of_toLower ?_
        exact isNumeralChar_of_readNumeral? read _ (List.mem_map_of_mem member)
      · cases read
    · cases read

end Asm86.Text
