/-
# Asm86.Text.Blank -- blanks, trimming, and the first word of a text

A blank is any of the 25 characters with the Unicode property White_Space, so a
no-break space or an ideographic space separates words just as a tab does.

Texts are worked on as lists of characters.  `splitWord` cuts the first word off
a text; what is left is shorter than what was given (`length_splitWord_lt`), which
is what lets a reader recurse on it.
-/

namespace Asm86.Text

set_option autoImplicit false

/-- The characters with the property White_Space. -/
def isBlank (c : Char) : Bool :=
  let n := c.toNat
  (0x09 ≤ n && n ≤ 0x0D) || n == 0x20 || n == 0x85 || n == 0xA0 || n == 0x1680 ||
    (0x2000 ≤ n && n ≤ 0x200A) || n == 0x2028 || n == 0x2029 || n == 0x202F ||
    n == 0x205F || n == 0x3000

def trimStart (s : List Char) : List Char := s.dropWhile isBlank

def trimEnd (s : List Char) : List Char := (s.reverse.dropWhile isBlank).reverse

def trim (s : List Char) : List Char := trimEnd (trimStart s)

/-- Every character is a blank; the empty text too. -/
def allBlank (s : List Char) : Bool := s.all isBlank

/-- The first word of `s` and what follows it, without the blanks around either. -/
def splitWord (s : List Char) : List Char × List Char :=
  let body := trim s
  (body.takeWhile (fun c => !isBlank c), trimStart (body.dropWhile (fun c => !isBlank c)))

/-! ## Lengths -/

theorem length_dropWhile_le (p : Char → Bool) (s : List Char) :
    (s.dropWhile p).length ≤ s.length := (List.dropWhile_suffix p).length_le

theorem length_trimStart_le (s : List Char) : (trimStart s).length ≤ s.length :=
  length_dropWhile_le _ s

theorem length_trimEnd_le (s : List Char) : (trimEnd s).length ≤ s.length := by
  have shorter := length_dropWhile_le isBlank s.reverse
  simpa [trimEnd] using shorter

theorem length_trim_le (s : List Char) : (trim s).length ≤ s.length :=
  Nat.le_trans (length_trimEnd_le _) (length_trimStart_le s)

/-- What is left of a text that is not empty is shorter than the text. -/
theorem length_splitWord_lt {s : List Char} (nonempty : s ≠ []) :
    (splitWord s).2.length < s.length := by
  have whole := length_trim_le s
  have tail := length_trimStart_le ((trim s).dropWhile (fun c => !isBlank c))
  simp only [splitWord]
  cases found : trim s with
  | nil =>
      have positive : 0 < s.length := List.length_pos_iff.mpr nonempty
      simpa [trimStart] using positive
  | cons c rest =>
      rw [found] at whole tail
      by_cases blank : isBlank c = true
      · have inner : (trimStart (c :: rest)).length ≤ rest.length := by
          simpa [trimStart, blank] using length_dropWhile_le isBlank rest
        have same : List.dropWhile (fun c => !isBlank c) (c :: rest) = c :: rest := by
          simp [blank]
        rw [same]
        simp only [List.length_cons] at whole
        omega
      · have drop := length_dropWhile_le (fun c => !isBlank c) rest
        have step : List.dropWhile (fun c => !isBlank c) (c :: rest) =
            List.dropWhile (fun c => !isBlank c) rest := by simp [blank]
        rw [step] at tail ⊢
        simp only [List.length_cons] at whole
        omega

end Asm86.Text
