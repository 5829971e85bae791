/-
# Asm86.Proofs.Source.Sums -- reading sums

A sum of terms whose texts are words (`Worded`) is cut into exactly these terms, whether or
not a plus sign stands before it (`Terms.ofText_sumText`, `Terms.ofText_plus_sumText`).  Taking in
the parts of a memory reference one after the other then collects its registers, its name and
its constant, in whatever order they come: `Adds` says what is still to come, each part takes
one thing off that (`Adds.step`), and in the end nothing is left (`Adds.foldlM`).

An expression is a reference with nothing but a displacement, so it reads back with it
(`Expr.parse_partsText`).
-/
import Asm86.Proofs.Source.Spelling

namespace Asm86.Source

open Asm86.Text
open Asm86.Machine

set_option autoImplicit false

/-! ## Cutting a sum -/

/-- A nonempty text of name characters. -/
structure Worded (s : List Char) : Prop where
  nonempty : s ≠ []
  chars : ∀ c ∈ s, isNameChar c = true

theorem Worded.solid {s : List Char} (worded : Worded s) : Solid s :=
  fun c member => isBlank_of_isNameChar (worded.chars c member)

theorem Worded.not_mem {s : List Char} (worded : Worded s) {c : Char}
    (other : isNameChar c = false) : c ∉ s := by
  intro member
  rw [worded.chars c member] at other
  cases other

theorem Worded.plain {s : List Char} (worded : Worded s) : ∀ c ∈ s, isQuote c = false ∧ c ≠ ';' :=
  fun c member => ⟨isQuote_of_isNameChar (worded.chars c member),
    ne_of_mem_of_not_mem member (worded.not_mem (by decide))⟩

theorem Worded.of_all {s : List Char} (nonempty : s ≠ []) (chars : s.all isNameChar = true) :
    Worded s :=
  ⟨nonempty, List.all_eq_true.1 chars⟩

theorem Worded.of_isIdentifier {s : List Char} (identifier : isIdentifier s = true) : Worded s :=
  ⟨ne_nil_of_isIdentifier identifier, isNameChar_of_isIdentifier identifier⟩

theorem Worded.of_isKeyword {keyword : String} {s : List Char}
    (letters : keyword.toList.all Char.isAlpha = true) (some : keyword.toList ≠ [])
    (found : isKeyword keyword s = true) : Worded s := by
  have spelled : upper s = keyword.toList := by simpa [isKeyword] using found
  constructor
  · rintro rfl
    exact some spelled.symm
  · intro c member
    by_cases small : c.isLower = true
    · simp [isNameChar, Char.isAlphanum, Char.isAlpha, small]
    · have image : c.toUpper ∈ keyword.toList := spelled ▸ List.mem_map_of_mem member
      rw [Char.toUpper_eq_of_not_isLower small] at image
      simp [isNameChar, Char.isAlphanum, List.all_eq_true.1 letters c image]

theorem foldr_onFirst (s : List Char) (piece : Term) (rest : List Term) :
    s.foldr Term.onFirst (piece :: rest) = ⟨piece.negative, s ++ piece.text⟩ :: rest := by
  induction s with
  | nil => rfl
  | cons c s ih =>
      rw [List.foldr_cons, ih]
      rfl

/-- Name characters go to the piece that they stand in. -/
theorem pieces_append {s : List Char} (chars : ∀ c ∈ s, isNameChar c = true) (negative : Bool)
    (rest : List Char) :
    pieces none negative (s ++ rest) = s.foldr Term.onFirst (pieces none negative rest) := by
  induction s with
  | nil => rfl
  | cons c s ih =>
      obtain ⟨name, later⟩ := List.forall_mem_cons.1 chars
      have plus : c ≠ '+' := by
        rintro rfl
        exact absurd name (by decide)
      have minus : c ≠ '-' := by
        rintro rfl
        exact absurd name (by decide)
      have unquoted : isSingleQuote c = false := by
        have both := isQuote_of_isNameChar name
        simp only [isQuote, Bool.or_eq_false_iff] at both
        exact both.1
      simp [pieces, plus, minus, quoteAfter_plain unquoted, ih later]

/-- Terms behind their signs are cut at the signs. -/
theorem pieces_signed {terms : List Term} (worded : ∀ t ∈ terms, Worded t.text) (negative : Bool) :
    pieces none negative (terms.flatMap Term.signed) = ⟨negative, []⟩ :: terms := by
  induction terms generalizing negative with
  | nil => rfl
  | cons t rest ih =>
      obtain ⟨first, later⟩ := List.forall_mem_cons.1 worded
      obtain ⟨sign, text⟩ := t
      have inner : pieces none sign (text ++ rest.flatMap Term.signed) = ⟨sign, text⟩ :: rest := by
        rw [pieces_append first.chars, ih later, foldr_onFirst, List.append_nil]
      cases sign <;> simp [Term.signed, pieces, inner]

namespace Terms

theorem ofPieces_cons {t : Term} (worded : Worded t.text) (next : Term) (rest : List Term) :
    ofPieces (t :: next :: rest) =
      ⟨t :: (ofPieces (next :: rest)).terms, (ofPieces (next :: rest)).complete⟩ := by
  have shown : allBlank t.text = false :=
    allBlank_eq_false worded.solid.tight.start worded.nonempty
  simp [ofPieces, shown, trim_tight worded.solid.tight]

theorem ofPieces_terms {terms : List Term} (worded : ∀ t ∈ terms, Worded t.text)
    (nonempty : terms ≠ []) : ofPieces terms = ⟨terms, true⟩ := by
  induction terms with
  | nil => exact absurd rfl nonempty
  | cons t rest ih =>
      obtain ⟨first, later⟩ := List.forall_mem_cons.1 worded
      cases rest with
      | nil =>
          have shown : allBlank t.text = false :=
            allBlank_eq_false first.solid.tight.start first.nonempty
          simp [ofPieces, shown, trim_tight first.solid.tight]
      | cons next rest =>
          rw [ofPieces_cons first, ih later (List.cons_ne_nil _ _)]

/-- An empty piece under no minus sign is passed over. -/
theorem ofPieces_skip (next : Term) (rest : List Term) :
    ofPieces (⟨false, []⟩ :: next :: rest) = ofPieces (next :: rest) := by
  simp [ofPieces, allBlank]

/-- A sum is cut at its signs; a leading minus leaves an empty piece before it. -/
theorem pieces_sumText {terms : List Term} (worded : ∀ t ∈ terms, Worded t.text)
    (nonempty : terms ≠ []) :
    pieces none false (sumText terms) = terms ∨
      pieces none false (sumText terms) = ⟨false, []⟩ :: terms := by
  obtain ⟨⟨sign, text⟩, rest, rfl⟩ := List.exists_cons_of_ne_nil nonempty
  obtain ⟨first, later⟩ := List.forall_mem_cons.1 worded
  cases sign with
  | true => exact .inr (pieces_signed worded false)
  | false =>
      left
      show pieces none false (text ++ rest.flatMap Term.signed) = _
      rw [pieces_append first.chars, pieces_signed later, foldr_onFirst, List.append_nil]

theorem ofText_sumText {terms : List Term} (worded : ∀ t ∈ terms, Worded t.text)
    (nonempty : terms ≠ []) : ofText (sumText terms) = ⟨terms, true⟩ := by
  rw [← ofPieces_terms worded nonempty, ofText]
  rcases pieces_sumText worded nonempty with plain | signed
  · rw [plain]
  · obtain ⟨t, rest, rfl⟩ := List.exists_cons_of_ne_nil nonempty
    rw [signed, ofPieces_skip]

theorem ofText_plus_sumText {terms : List Term} (worded : ∀ t ∈ terms, Worded t.text)
    (nonempty : terms ≠ []) : ofText ('+' :: sumText terms) = ⟨terms, true⟩ := by
  have front : pieces none false ('+' :: sumText terms) =
      ⟨false, []⟩ :: pieces none false (sumText terms) := by
    simp [pieces]
  rw [← ofText_sumText worded nonempty, ofText, front, ofText]
  obtain ⟨t, rest, rfl⟩ := List.exists_cons_of_ne_nil nonempty
  rcases pieces_sumText worded nonempty with plain | signed
  · rw [plain, ofPieces_skip]
  · rw [signed, ofPieces_skip]

end Terms

/-! ## Words without another meaning -/

namespace Unreserved

variable {s : List Char}

theorem register_none (free : Unreserved s) : Register.ofName? s = none := by
  have others : ∀ w ∈ Register.byteNames ++ Register.wordNames, isKeyword w s = false :=
    fun w member => free w (List.mem_append_left _ (List.mem_append_left _ member))
  have bytes : Register.byteNames.findIdx? (fun n => isKeyword n s) = none :=
    List.findIdx?_eq_none_iff.2 fun w member => others w (List.mem_append_left _ member)
  have words : Register.wordNames.findIdx? (fun n => isKeyword n s) = none :=
    List.findIdx?_eq_none_iff.2 fun w member => others w (List.mem_append_right _ member)
  simp [Register.ofName?, bytes, words]

theorem segment_none (free : Unreserved s) : SegReg.ofName? s = none :=
  List.find?_eq_none.2 fun r member => by
    have other := free r.name <|
      List.mem_append_left _ (List.mem_append_right _ (List.mem_map_of_mem member))
    simp [other]

/-- Reserved words are made of letters. -/
theorem of_mem {c : Char} (member : c ∈ s) (foreign : c.toUpper.isAlpha = false) :
    Unreserved s := by
  have letters : ∀ w ∈ reservedWords, w.toList.all Char.isAlpha = true := by decide
  intro w reserved
  apply isKeyword_eq_false member
  intro inside
  rw [List.all_eq_true.1 (letters w reserved) _ inside] at foreign
  cases foreign

theorem decimal (n : Nat) : Unreserved (decimal n) := by
  obtain ⟨c, member⟩ := List.exists_mem_of_ne_nil _ (decimal_ne_nil n)
  have digit := isDigit_of_mem_decimal member
  apply of_mem member
  rw [toUpper_digit digit]
  exact (Bool.or_eq_false_iff.1 (isDigit_not_start digit)).1

end Unreserved

/-! ## The parts of a sum -/

namespace Part

def base? : Part → Option BaseReg
  | .base b => some b
  | _ => none

def index? : Part → Option IndexReg
  | .index i => some i
  | _ => none

def name? : Part → Option String
  | .name s => some s
  | _ => none

def constant? : Part → Option Int
  | .constant v => some v
  | _ => none

/-- A free name or a constant that has a literal; registers can always be written. -/
def Writable : Part → Prop
  | .name s => FreeName s
  | .constant v => v.natAbs ≤ 9223372036854775807
  | _ => True

theorem worded_term {part : Part} (writable : part.Writable) : Worded part.term.text := by
  cases part with
  | base b => cases b <;> exact .of_all (by decide) (by decide)
  | index i => cases i <;> exact .of_all (by decide) (by decide)
  | name s => exact .of_isIdentifier writable.identifier
  | constant v =>
      exact ⟨decimal_ne_nil _, fun c member => isNameChar_of_isDigit (isDigit_of_mem_decimal member)⟩

end Part

/-- The parts bring `start` to `goal`: each kind of part comes at most once, and only where
`start` has none of it yet. -/
structure Adds (start : MemoryRef) (parts : List Part) (goal : MemoryRef) : Prop where
  width : start.width = goal.width
  segment : start.segment = goal.segment
  base : start.base.toList ++ parts.filterMap Part.base? = goal.base.toList
  index : start.index.toList ++ parts.filterMap Part.index? = goal.index.toList
  symbol : start.disp.symbol.toList ++ parts.filterMap Part.name? = goal.disp.symbol.toList
  constant : (parts.filterMap Part.constant? = [] ∧ start.disp.value = goal.disp.value) ∨
    start.disp.value = 0 ∧ parts.filterMap Part.constant? = [goal.disp.value]

theorem toList_injective {α : Type} {o o' : Option α} (same : o.toList = o'.toList) : o = o' := by
  cases o <;> cases o' <;> simp_all

/-- A value that is there leaves no room for another one. -/
theorem eq_none_of_toList {α : Type} {o o' : Option α} {x : α} {xs : List α}
    (whole : o.toList ++ x :: xs = o'.toList) : o = none := by
  have lengths := congrArg List.length whole
  cases o <;> cases o' <;> simp_all

theorem eq_toList_of_perm {α : Type} {o : Option α} {xs : List α} (perm : xs.Perm o.toList) :
    xs = o.toList := by
  cases o with
  | none => exact perm.eq_nil
  | some x => exact List.perm_singleton.1 perm

/-- The parts of a reference bring the empty one to it. -/
theorem PartsOf.adds {m : MemoryRef} {parts : List Part}
    (sum : PartsOf m.base m.index m.disp parts) :
    Adds { width := m.width, segment := m.segment } parts m := by
  obtain ⟨constant, value, perm⟩ := sum.complete
  refine ⟨rfl, rfl, ?_, ?_, ?_, ?_⟩
  · apply eq_toList_of_perm
    simpa [List.filterMap_map, Function.comp_def, Part.base?] using perm.filterMap Part.base?
  · apply eq_toList_of_perm
    simpa [List.filterMap_map, Function.comp_def, Part.index?] using perm.filterMap Part.index?
  · apply eq_toList_of_perm
    simpa [List.filterMap_map, Function.comp_def, Part.name?] using perm.filterMap Part.name?
  · have only : parts.filterMap Part.constant? = constant.toList := by
      apply eq_toList_of_perm
      simpa [List.filterMap_map, Function.comp_def, Part.constant?] using
        perm.filterMap Part.constant?
    cases constant with
    | none => exact .inl ⟨only, value⟩
    | some v => exact .inr ⟨rfl, value ▸ only⟩

theorem PartsOf.mem {base : Option BaseReg} {index : Option IndexReg} {e : Expr} {parts : List Part}
    (sum : PartsOf base index e parts) {part : Part} (member : part ∈ parts) :
    (∃ b ∈ base, part = .base b) ∨ (∃ i ∈ index, part = .index i) ∨
      (∃ s ∈ e.symbol, part = .name s) ∨ part = .constant e.value := by
  obtain ⟨constant, value, perm⟩ := sum.complete
  have origin := perm.mem_iff.1 member
  simp only [List.mem_append, List.mem_map, Option.mem_toList] at origin
  rcases origin with ((⟨b, held, rfl⟩ | ⟨i, held, rfl⟩) | ⟨s, named, rfl⟩) | ⟨v, same, rfl⟩
  · exact .inl ⟨b, held, rfl⟩
  · exact .inr (.inl ⟨i, held, rfl⟩)
  · exact .inr (.inr (.inl ⟨s, named, rfl⟩))
  · cases same
    exact .inr (.inr (.inr (congrArg _ value)))

theorem PartsOf.writable {base : Option BaseReg} {index : Option IndexReg} {e : Expr}
    {parts : List Part} (sum : PartsOf base index e parts) (writable : e.Writable) :
    ∀ part ∈ parts, part.Writable := by
  intro part member
  rcases sum.mem member with ⟨b, -, rfl⟩ | ⟨i, -, rfl⟩ | ⟨s, named, rfl⟩ | rfl
  · trivial
  · trivial
  · exact writable.name s named
  · exact writable.constant

/-! ## Taking in one part -/

theorem Expr.addTerm_constant {e : Expr} {v : Int} (inside : v.natAbs ≤ 9223372036854775807)
    (zero : e.value = 0) : e.addTerm (Part.constant v).term = .ok { e with value := v } := by
  have signed : Range.signed64 v = true := by
    simp only [Range.signed64, Bool.and_eq_true, decide_eq_true_eq]
    omega
  have value : (if v < 0 then -(v.natAbs : Int) else (v.natAbs : Int)) = v := by
    split <;> omega
  simp only [Expr.addTerm, Part.term, literal?_decimal inside, decide_eq_true_eq, value, zero,
    Range.checked64, signed, ↓reduceIte, Option.bind_some, Int.zero_add]

theorem Expr.addTerm_name {e : Expr} {s : String} (free : FreeName s) (unnamed : e.symbol = none) :
    e.addTerm (Part.name s).term = .ok { e with symbol := some s } := by
  simp [Expr.addTerm, Part.term, literal?_identifier free.identifier, free.identifier, unnamed]

namespace MemoryRef

/-- A term that names no register goes to the displacement. -/
theorem addTerm_disp {m : MemoryRef} {t : Term} (other : Register.ofName? t.text = none) :
    m.addTerm t = (m.disp.addTerm t).map fun disp => { m with disp } := by
  simp only [addTerm, other]
  cases m.disp.addTerm t <;> rfl

theorem addTerm_base (m : MemoryRef) (b : BaseReg) :
    m.addTerm (Part.base b).term = m.addBase b := by
  cases b <;> rfl

theorem addTerm_index (m : MemoryRef) (i : IndexReg) :
    m.addTerm (Part.index i).term = m.addIndex i := by
  cases i <;> rfl

end MemoryRef

theorem Adds.step {start goal : MemoryRef} {part : Part} {rest : List Part}
    (adds : Adds start (part :: rest) goal) (writable : part.Writable) :
    ∃ next, start.addTerm part.term = .ok next ∧ Adds next rest goal := by
  obtain ⟨width, segment, base, index, symbol, constant⟩ := adds
  cases part with
  | base b =>
      have absent := eq_none_of_toList base
      refine ⟨{ start with base := some b }, ?_, width, segment, ?_, index, symbol, constant⟩
      · simp [MemoryRef.addTerm_base, MemoryRef.addBase, absent]
      · simpa [absent, List.filterMap_cons, Part.base?] using base
  | index i =>
      have absent := eq_none_of_toList index
      refine ⟨{ start with index := some i }, ?_, width, segment, base, ?_, symbol, constant⟩
      · simp [MemoryRef.addTerm_index, MemoryRef.addIndex, absent]
      · simpa [absent, List.filterMap_cons, Part.index?] using index
  | name s =>
      have absent := eq_none_of_toList symbol
      refine ⟨{ start with disp := { start.disp with symbol := some s } }, ?_, width, segment, base,
        index, ?_, constant⟩
      · have other : Register.ofName? (Part.name s).term.text = none :=
          writable.unreserved.register_none
        rw [MemoryRef.addTerm_disp other, Expr.addTerm_name writable absent]
        rfl
      · simpa [absent, List.filterMap_cons, Part.name?] using symbol
  | constant v =>
      rcases constant with ⟨none, -⟩ | ⟨zero, only⟩
      · cases none
      · obtain ⟨rfl, last⟩ := List.cons.inj only
        refine ⟨{ start with disp := { start.disp with value := goal.disp.value } }, ?_, width,
          segment, base, index, symbol, .inl ⟨last, rfl⟩⟩
        have other : Register.ofName? (Part.constant goal.disp.value).term.text = none :=
          (Unreserved.decimal _).register_none
        rw [MemoryRef.addTerm_disp other, Expr.addTerm_constant writable zero]
        rfl

theorem Adds.done {start goal : MemoryRef} (adds : Adds start [] goal) : start = goal := by
  obtain ⟨width, segment, base, index, symbol, constant⟩ := adds
  obtain ⟨w, r, b, i, v, n⟩ := start
  obtain ⟨w', r', b', i', v', n'⟩ := goal
  simp only [List.filterMap_nil, List.append_nil] at base index symbol constant
  rw [toList_injective base, toList_injective index, toList_injective symbol]
  rcases constant with ⟨-, same⟩ | ⟨-, wrong⟩
  · rw [show w = w' from width, show r = r' from segment, show v = v' from same]
  · cases wrong

/-- **Parts add up to their reference, in any order.** -/
theorem Adds.foldlM {start goal : MemoryRef} {parts : List Part} (adds : Adds start parts goal)
    (writable : ∀ part ∈ parts, part.Writable) :
    (parts.map Part.term).foldlM MemoryRef.addTerm start = .ok goal := by
  induction parts generalizing start with
  | nil =>
      rw [adds.done]
      rfl
  | cons part rest ih =>
      obtain ⟨first, later⟩ := List.forall_mem_cons.1 writable
      obtain ⟨next, added, others⟩ := adds.step first
      rw [List.map_cons, List.foldlM_cons, added]
      exact ih others later

/-! ## The text of a sum -/

/-- Made of name characters and these marks. -/
def Made (marks s : List Char) : Prop := ∀ c ∈ s, isNameChar c = true ∨ c ∈ marks

instance (marks s : List Char) : Decidable (Made marks s) :=
  decidable_of_iff (s.all fun c => isNameChar c || marks.contains c) (by simp [Made])

namespace Made

variable {marks marks' s t : List Char}

theorem mono (made : Made marks s) (more : marks ⊆ marks') : Made marks' s :=
  fun c member => (made c member).imp_right (more ·)

theorem append (left : Made marks s) (right : Made marks t) : Made marks (s ++ t) :=
  List.forall_mem_append.2 ⟨left, right⟩

theorem cons {c : Char} (first : isNameChar c = true ∨ c ∈ marks) (rest : Made marks s) :
    Made marks (c :: s) :=
  List.forall_mem_cons.2 ⟨first, rest⟩

theorem solid (made : Made marks s) (shown : Solid marks) : Solid s :=
  fun c member => (made c member).elim isBlank_of_isNameChar (shown c)

theorem not_mem (made : Made marks s) {c : Char} (other : isNameChar c = false ∧ c ∉ marks) :
    c ∉ s := by
  intro member
  rcases made c member with name | mark
  · rw [name] at other
    cases other.1
  · exact other.2 mark

end Made

/-- The text of a sum: name characters and signs. -/
structure Summed (s : List Char) : Prop where
  nonempty : s ≠ []
  chars : Made ['+', '-'] s

theorem Summed.solid {s : List Char} (summed : Summed s) : Solid s := summed.chars.solid (by decide)

theorem Summed.not_mem {s : List Char} (summed : Summed s) {c : Char}
    (other : isNameChar c = false ∧ c ∉ ['+', '-']) : c ∉ s :=
  summed.chars.not_mem other

theorem Part.made_term {part : Part} (writable : part.Writable) : Made ['+', '-'] part.term.text :=
  fun c member => .inl ((worded_term writable).chars c member)

theorem Part.made_signed {part : Part} (writable : part.Writable) :
    Made ['+', '-'] part.term.signed :=
  .cons (by cases part.term.negative <;> decide) (made_term writable)

theorem partsText_summed {parts : List Part} (nonempty : parts ≠ [])
    (writable : ∀ part ∈ parts, part.Writable) : Summed (partsText parts) := by
  obtain ⟨part, rest, rfl⟩ := List.exists_cons_of_ne_nil nonempty
  obtain ⟨first, later⟩ := List.forall_mem_cons.1 writable
  constructor
  · have word := (Part.worded_term first).nonempty
    cases negative : part.term.negative <;> simp [partsText, sumText, negative, word, Term.signed]
  · apply Made.append
    · split
      · exact Part.made_signed first
      · exact Part.made_term first
    · intro c member
      obtain ⟨t, inside, sign⟩ := List.mem_flatMap.1 member
      obtain ⟨other, mem, rfl⟩ := List.mem_map.1 inside
      exact Part.made_signed (later other mem) c sign

namespace PartsOf

variable {e : Expr} {parts : List Part}

/-- The terms of an expression are names and numbers. -/
theorem unreserved_terms (sum : PartsOf none none e parts) (writable : e.Writable) :
    ∀ part ∈ parts, Unreserved part.term.text := by
  intro part member
  rcases sum.mem member with ⟨b, held, -⟩ | ⟨i, held, -⟩ | ⟨s, named, rfl⟩ | rfl
  · cases held
  · cases held
  · exact (writable.name s named).unreserved
  · exact Unreserved.decimal _

theorem unreserved (sum : PartsOf none none e parts) (writable : e.Writable) :
    Unreserved (partsText parts) := by
  have terms := sum.unreserved_terms writable
  obtain ⟨part, rest, rfl⟩ := List.exists_cons_of_ne_nil sum.nonempty
  by_cases negative : part.term.negative = true
  · apply Unreserved.of_mem (c := '-') _ (by decide)
    simp [partsText, sumText, negative, Term.signed]
  cases rest with
  | nil => simpa [partsText, sumText, negative] using terms part (List.mem_singleton_self _)
  | cons next rest =>
      cases sign : next.term.negative with
      | false =>
          apply Unreserved.of_mem (c := '+') _ (by decide)
          simp [partsText, sumText, Term.signed, sign]
      | true =>
          apply Unreserved.of_mem (c := '-') _ (by decide)
          simp [partsText, sumText, Term.signed, sign]

end PartsOf

/-! ## Reading it back -/

theorem PartsOf.foldlM {m : MemoryRef} {parts : List Part}
    (sum : PartsOf m.base m.index m.disp parts) (writable : m.disp.Writable) :
    (parts.map Part.term).foldlM MemoryRef.addTerm { width := m.width, segment := m.segment } =
      .ok m :=
  sum.adds.foldlM (sum.writable writable)

/-- The brackets of a reference bring a plus sign before its sum. -/
theorem foldText_reference {m : MemoryRef} {parts : List Part}
    (sum : PartsOf m.base m.index m.disp parts) (writable : m.disp.Writable) :
    Terms.foldText MemoryRef.addTerm { width := m.width, segment := m.segment }
      ('+' :: partsText parts) = .ok m := by
  have worded : ∀ t ∈ parts.map Part.term, Worded t.text :=
    List.forall_mem_map.2 fun part member => Part.worded_term (sum.writable writable part member)
  have terms := Terms.ofText_plus_sumText worded (by simpa using sum.nonempty)
  simp only [Terms.foldText, partsText, terms, sum.foldlM writable]
  rfl

theorem MemoryRef.foldlM_disp {terms : List Term}
    (others : ∀ t ∈ terms, Register.ofName? t.text = none) (m : MemoryRef) :
    terms.foldlM MemoryRef.addTerm m =
      (terms.foldlM Expr.addTerm m.disp).map fun disp => { m with disp } := by
  induction terms generalizing m with
  | nil => rfl
  | cons t rest ih =>
      obtain ⟨first, later⟩ := List.forall_mem_cons.1 others
      rw [List.foldlM_cons, List.foldlM_cons, MemoryRef.addTerm_disp first]
      cases m.disp.addTerm t with
      | error e => rfl
      | ok disp => exact ih later { m with disp }

theorem Expr.parse_partsText {e : Expr} {parts : List Part} (sum : PartsOf none none e parts)
    (writable : e.Writable) : Expr.parse (partsText parts) = .ok e := by
  have summed := partsText_summed sum.nonempty (sum.writable writable)
  have worded : ∀ t ∈ parts.map Part.term, Worded t.text :=
    List.forall_mem_map.2 fun part member => Part.worded_term (sum.writable writable part member)
  have terms := Terms.ofText_sumText worded (by simpa using sum.nonempty)
  have unnamed : ∀ t ∈ parts.map Part.term, Register.ofName? t.text = none :=
    List.forall_mem_map.2 fun part member =>
      (sum.unreserved_terms writable part member).register_none
  -- An expression is a reference with nothing but its displacement.
  have reference := PartsOf.foldlM (m := { disp := e }) sum writable
  rw [MemoryRef.foldlM_disp unnamed] at reference
  have folded : (parts.map Part.term).foldlM Expr.addTerm {} = .ok e := by
    obtain ⟨disp, folded, same⟩ := Checked.map_eq_ok.1 reference
    cases same
    exact folded
  have plain : stripKeyword? "OFFSET" (partsText parts) = none := by
    simp [stripKeyword?, splitWord_solid summed.solid,
      sum.unreserved writable "OFFSET" (by decide)]
  simp only [Expr.parse, trim_tight summed.solid.tight, plain, Option.getD_none, Terms.foldText]
  simp only [partsText, terms, folded]
  rfl

end Asm86.Source
