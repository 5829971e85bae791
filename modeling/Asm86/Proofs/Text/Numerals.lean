/-
# Asm86.Proofs.Text.Numerals -- numerals denote their numbers

A number has many numerals: four ways to mark the base, any number of zeros in front, and
letters in either case.  `Spells radix n s` says that `s` is the digits of `n` in a base, up to
zeros and case, and `Numeral n s` adds the marks.

Digits are read from the left, so what has been read is the number of the digits so far
(`readDigits_toDigits`).  The marks are told apart by looking for `x` behind the first
character and then at the last one: `x` and `h` are no digits in any base, and a `b` that is a
digit has an `h` behind it or an `x` before it.  So every numeral of a number denotes it, as
long as it is inside 64 bits (`numeral_denotes`).
-/
import Asm86.Proofs.Text.Decimal

namespace Asm86.Text

set_option autoImplicit false

/-- The digits of `n` behind any number of zeros, with letters in either case. -/
def Spells (radix n : Nat) (s : List Char) : Prop :=
  ∃ zeros, lower s = List.replicate zeros '0' ++ Nat.toDigits radix n

/-- The numerals of a number. -/
inductive Numeral (n : Nat) : List Char → Prop where
  | decimal {s : List Char} (digits : Spells 10 n s) : Numeral n s
  | hexMarkedFirst {x : Char} {s : List Char} (mark : x.toLower = 'x') (digits : Spells 16 n s) :
      Numeral n ('0' :: x :: s)
  /-- A leading letter would make it a name. -/
  | hexMarkedLast {s : List Char} {h : Char} (first : ∀ c ∈ s.head?, c.isDigit = true)
      (digits : Spells 16 n s) (mark : h.toLower = 'h') : Numeral n (s ++ [h])
  | binary {s : List Char} {b : Char} (digits : Spells 2 n s) (mark : b.toLower = 'b') :
      Numeral n (s ++ [b])

/-! ## Digits of a base -/

/-- A digit of the base, in lower case. -/
def IsDigitOf (radix : Nat) (c : Char) : Prop := ∃ d < radix, c = Nat.digitChar d

theorem digitValue?_digitChar {d : Nat} (small : d < 16) :
    digitValue? (Nat.digitChar d) = some d := by
  revert d
  decide

theorem isNumeralChar_digitChar {d : Nat} (small : d < 16) :
    isNumeralChar (Nat.digitChar d) = true := by
  revert d
  decide

/-- None of these characters is a digit in any base that numerals have. -/
theorem digitChar_ne {d : Nat} (small : d < 16) :
    Nat.digitChar d ≠ 'x' ∧ Nat.digitChar d ≠ '+' ∧ Nat.digitChar d ≠ '-' := by
  revert d
  decide

theorem isDigitOf_toDigits {radix : Nat} (base : 1 < radix) (n : Nat) :
    ∀ c ∈ Nat.toDigits radix n, IsDigitOf radix c := by
  induction n using Nat.strongRecOn with
  | ind n ih =>
      intro c member
      by_cases small : n < radix
      · rw [Nat.toDigits_of_lt_base small, List.mem_singleton] at member
        exact ⟨n, small, member⟩
      · rw [not_lt] at small
        rw [Nat.toDigits_of_base_le base small, List.mem_append, List.mem_singleton] at member
        rcases member with before | last
        · exact ih (n / radix) (Nat.div_lt_self (by omega) base) c before
        · exact ⟨n % radix, Nat.mod_lt n (by omega), last⟩

namespace Spells

variable {radix n : Nat} {s : List Char}

theorem isDigitOf (digits : Spells radix n s) (base : 1 < radix) :
    ∀ c ∈ lower s, IsDigitOf radix c := by
  obtain ⟨zeros, whole⟩ := digits
  intro c member
  rw [whole, List.mem_append] at member
  rcases member with zero | digit
  · exact ⟨0, by omega, List.eq_of_mem_replicate zero⟩
  · exact isDigitOf_toDigits base n c digit

theorem ne_nil (digits : Spells radix n s) : s ≠ [] := by
  rintro rfl
  obtain ⟨zeros, whole⟩ := digits
  exact Nat.toDigits_ne_nil (List.append_eq_nil_iff.1 whole.symm).2

theorem isNumeralChar (digits : Spells radix n s) (base : 1 < radix) (known : radix ≤ 16) :
    ∀ c ∈ s, isNumeralChar c = true := by
  intro c member
  obtain ⟨d, small, same⟩ := digits.isDigitOf base _ (List.mem_map_of_mem member)
  apply isNumeralChar_of_toLower
  rw [same]
  exact isNumeralChar_digitChar (by omega)

theorem not_mem_x (digits : Spells radix n s) (base : 1 < radix) (known : radix ≤ 16) :
    'x' ∉ lower s := by
  intro member
  obtain ⟨d, small, same⟩ := digits.isDigitOf base _ member
  exact (digitChar_ne (by omega)).1 same.symm

/-- Up to base ten there are no letters, so the case plays no part. -/
theorem isDigit (digits : Spells radix n s) (base : 1 < radix) (known : radix ≤ 10) :
    ∀ c ∈ s, c.isDigit = true := by
  intro c member
  obtain ⟨d, small, same⟩ := digits.isDigitOf base _ (List.mem_map_of_mem member)
  have plain : (Nat.digitChar d).isDigit = true ∧ (Nat.digitChar d).isLower = false := by
    have below : d < 10 := by omega
    clear small same
    revert d
    decide
  have letter : ¬ c.isUpper = true := by
    intro capital
    have small := Char.isLower_toLower_eq_isAlpha c
    rw [same, plain.2, Char.isAlpha, capital] at small
    cases small
  rw [← Char.toLower_eq_of_not_isUpper letter, same]
  exact plain.1

end Spells

/-! ## Reading digits -/

theorem readDigits_append {radix acc : Nat} (s t : List Char) :
    readDigits radix acc (s ++ t) =
      (readDigits radix acc s).bind fun front => readDigits radix front t := by
  induction s generalizing acc with
  | nil => rfl
  | cons c s ih =>
      rw [List.cons_append, readDigits, readDigits]
      cases digitValue? c with
      | none => rfl
      | some d =>
          simp only
          split
          · exact ih
          · rfl

theorem readDigits_digitChar {radix d : Nat} (known : radix ≤ 16) (small : d < radix) (acc : Nat) :
    readDigits radix acc [Nat.digitChar d] = some (acc * radix + d) := by
  simp only [readDigits, digitValue?_digitChar (Nat.lt_of_lt_of_le small known), small, ↓reduceIte]

theorem readDigits_toDigits {radix : Nat} (base : 1 < radix) (known : radix ≤ 16) (n : Nat) :
    readDigits radix 0 (Nat.toDigits radix n) = some n := by
  induction n using Nat.strongRecOn with
  | ind n ih =>
      by_cases small : n < radix
      · rw [Nat.toDigits_of_lt_base small, readDigits_digitChar known small, Nat.zero_mul,
          Nat.zero_add]
      · rw [not_lt] at small
        -- The last digit is the remainder, and those before it are the digits of the quotient.
        have quotient := ih (n / radix) (Nat.div_lt_self (by omega) base)
        have remainder : n % radix < radix := Nat.mod_lt n (by omega)
        rw [Nat.toDigits_of_base_le base small, readDigits_append, quotient, Option.bind_some,
          readDigits_digitChar known remainder, Nat.div_add_mod']

theorem readDigits_zeros {radix : Nat} (base : 1 < radix) (zeros : Nat) (s : List Char) :
    readDigits radix 0 (List.replicate zeros '0' ++ s) = readDigits radix 0 s := by
  have zero : digitValue? '0' = some 0 := by decide
  have positive : 0 < radix := by omega
  induction zeros with
  | zero => rfl
  | succ zeros ih =>
      rw [List.replicate_succ, List.cons_append, readDigits, zero]
      simp only [positive, ↓reduceIte, Nat.zero_mul, Nat.add_zero]
      exact ih

theorem readSigned?_spelling {radix n : Nat} {s : List Char} (digits : Spells radix n s)
    (base : 1 < radix) (known : radix ≤ 16) :
    readSigned? radix (lower s) = Range.checked64 (n : Int) := by
  have value : readNat? radix (lower s) = some n := by
    obtain ⟨zeros, whole⟩ := digits
    rw [readNat?, whole, readDigits_zeros base, readDigits_toDigits base known]
    simp [Nat.toDigits_ne_nil]
  have unsigned : ∀ c ∈ lower s, c ≠ '+' ∧ c ≠ '-' := by
    intro c member
    obtain ⟨d, small, rfl⟩ := digits.isDigitOf base c member
    exact (digitChar_ne (by omega)).2
  unfold readSigned?
  split
  · rename_i rest same
    exact absurd rfl (unsigned '+' (by simp [same])).1
  · rename_i rest same
    exact absurd rfl (unsigned '-' (by simp [same])).2
  · rw [value, Option.bind_some]

/-! ## Telling the bases apart -/

/-- Without an `x` the last character says what the base is. -/
theorem readNumeral?_ending {s : List Char} {c : Char} (plain : 'x' ∉ s ++ [c]) :
    readNumeral? (s ++ [c]) =
      if c = 'h' then readSigned? 16 s
      else if c = 'b' then readSigned? 2 s
      else readSigned? 10 (s ++ [c]) := by
  unfold readNumeral?
  split
  · rename_i rest same
    exact absurd (by simp [same]) plain
  · rw [List.getLast?_concat, List.dropLast_concat]
    split
    · rename_i last
      simp [Option.some.inj last]
    · rename_i last
      simp [Option.some.inj last]
    · rename_i notH notB
      rw [if_neg fun same => notH (congrArg some same), if_neg fun same => notB (congrArg some same)]

theorem lower_append (s t : List Char) : lower (s ++ t) = lower s ++ lower t := List.map_append

namespace Numeral

variable {n : Nat} {s : List Char}

theorem readNumeral? (numeral : Numeral n s) :
    Text.readNumeral? (lower s) = Range.checked64 (n : Int) := by
  cases numeral with
  | decimal digits =>
      have decimals := digits.isDigit (by decide) (by decide)
      rw [← readSigned?_spelling digits (by decide) (by decide), lower_digits decimals,
        readNumeral?_digits decimals digits.ne_nil, readSigned?_digits decimals digits.ne_nil]
  | @hexMarkedFirst x t mark digits =>
      have lowered : lower ('0' :: x :: t) = '0' :: 'x' :: lower t := by
        rw [lower, List.map_cons, List.map_cons, mark]
        rfl
      rw [lowered]
      exact readSigned?_spelling digits (by decide) (by decide)
  | @hexMarkedLast t h first digits mark =>
      have lowered : lower (t ++ [h]) = lower t ++ ['h'] := by
        rw [lower_append, ← mark]
        rfl
      have plain : 'x' ∉ lower t ++ ['h'] := by
        simpa using digits.not_mem_x (by decide) (by decide)
      rw [lowered, readNumeral?_ending plain, if_pos rfl]
      exact readSigned?_spelling digits (by decide) (by decide)
  | @binary t b digits mark =>
      have lowered : lower (t ++ [b]) = lower t ++ ['b'] := by
        rw [lower_append, ← mark]
        rfl
      have plain : 'x' ∉ lower t ++ ['b'] := by
        simpa using digits.not_mem_x (by decide) (by decide)
      rw [lowered, readNumeral?_ending plain, if_neg (by decide), if_pos rfl]
      exact readSigned?_spelling digits (by decide) (by decide)

theorem isNumeralChar (numeral : Numeral n s) : ∀ c ∈ s, isNumeralChar c = true := by
  have marked : ∀ {c : Char} (m : Char), c.toLower = m → Text.isNumeralChar m = true →
      Text.isNumeralChar c = true := by
    intro c m same numeral
    exact isNumeralChar_of_toLower (same ▸ numeral)
  cases numeral with
  | decimal digits => exact digits.isNumeralChar (by decide) (by decide)
  | hexMarkedFirst mark digits =>
      refine List.forall_mem_cons.2 ⟨by decide, List.forall_mem_cons.2 ⟨?_, ?_⟩⟩
      · exact marked 'x' mark (by decide)
      · exact digits.isNumeralChar (by decide) (by decide)
  | hexMarkedLast first digits mark =>
      refine List.forall_mem_append.2 ⟨digits.isNumeralChar (by decide) (by decide), ?_⟩
      exact List.forall_mem_singleton.2 (marked 'h' mark (by decide))
  | binary digits mark =>
      refine List.forall_mem_append.2 ⟨digits.isNumeralChar (by decide) (by decide), ?_⟩
      exact List.forall_mem_singleton.2 (marked 'b' mark (by decide))

/-- A numeral starts with a digit, which is what tells it from a name. -/
theorem starts (numeral : Numeral n s) : ∃ c rest, s = c :: rest ∧ c.isDigit = true := by
  have front : ∀ {t : List Char} (more : List Char), t ≠ [] → (∀ c ∈ t.head?, c.isDigit = true) →
      ∃ c rest, t ++ more = c :: rest ∧ c.isDigit = true := by
    intro t more nonempty first
    obtain ⟨c, rest, rfl⟩ := List.exists_cons_of_ne_nil nonempty
    exact ⟨c, rest ++ more, rfl, first c rfl⟩
  cases numeral with
  | decimal digits =>
      have found := front [] digits.ne_nil fun c first =>
        digits.isDigit (by decide) (by decide) c (List.mem_of_mem_head? first)
      rwa [List.append_nil] at found
  | hexMarkedFirst mark digits => exact ⟨'0', _, rfl, by decide⟩
  | hexMarkedLast first digits mark => exact front _ digits.ne_nil first
  | binary digits mark =>
      exact front _ digits.ne_nil fun c first =>
        digits.isDigit (by decide) (by decide) c (List.mem_of_mem_head? first)

end Numeral

/-! ## Literals -/

theorem checked64_natCast (n : Nat) :
    Range.checked64 (n : Int) = if n ≤ 2 ^ 63 - 1 then some (n : Int) else none := by
  have inside : Range.signed64 (n : Int) = true ↔ n ≤ 2 ^ 63 - 1 := by
    simp only [Range.signed64, Bool.and_eq_true, decide_eq_true_eq]
    omega
  simp only [Range.checked64, inside]

/-- Every numeral of a number denotes it, blanks around it aside, up to the largest that 64 bits
with a sign can hold; a numeral of a larger number denotes nothing. -/
theorem numeral_denotes {n : Nat} {s front back : List Char} (numeral : Numeral n s)
    (before : allBlank front = true) (after : allBlank back = true) :
    literal? (front ++ (s ++ back)) = if n ≤ 2 ^ 63 - 1 then some (n : Int) else none := by
  have solid : Solid s := fun c member =>
    (shown_of_isNumeralChar (numeral.isNumeralChar c member)).1
  have body : trim (front ++ (s ++ back)) = s := by
    rw [trim_append_left before, trim_append_allBlank after, trim_tight solid.tight]
  have value := numeral.readNumeral?
  have shown := numeral.isNumeralChar
  obtain ⟨c, rest, rfl, digit⟩ := numeral.starts
  have unquoted : quotedCode? (c :: rest) = none :=
    quotedCode?_unquoted (shown_of_isNumeralChar (shown c (List.mem_cons_self ..))).2 rest
  simp only [literal?, body, unquoted, digit, ↓reduceIte, value, checked64_natCast]

/-- A `b` before `h` is a digit, in either case; and the first number past the largest one. -/
theorem numeral_denotes_mixed_case :
    Numeral 2747 "00aBbH".toList ∧ literal? " 00aBbH\t".toList = some 2747 ∧
      Numeral (2 ^ 63) "0X8000000000000000".toList ∧
      literal? "0X8000000000000000".toList = none := by
  have small : Numeral 2747 "00aBbH".toList := by
    exact .hexMarkedLast (s := "00aBb".toList) (h := 'H') (by simp) ⟨2, by decide⟩ (by decide)
  have large : Numeral (2 ^ 63) "0X8000000000000000".toList := by
    exact .hexMarkedFirst (x := 'X') (by decide) ⟨0, by decide⟩
  have blank : allBlank [' '] = true ∧ allBlank ['\t'] = true := by decide
  have nothing : allBlank [] = true := rfl
  refine ⟨small, numeral_denotes small blank.1 blank.2, large, ?_⟩
  have beyond := numeral_denotes large nothing nothing
  rwa [List.nil_append, List.append_nil, if_neg (by decide)] at beyond

end Asm86.Text
