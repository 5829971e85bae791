/-
# Asm86.Proofs.Source.RoundTrip -- instruction lines read back

Each text of an operand is an `Item`: it has no comma in it, its brackets are balanced, and no
directive is at its front.  Items come back from the commas between them
(`splitItems_itemsText`), and a line of a mnemonic and items is read item by item, with the label
that stands before it (`Line.parse_lineText`).  So reading a line undoes writing it
(`Line.parse_undoes_writing`).
-/
import Asm86.Proofs.Source.Operands

namespace Asm86.Source

open Asm86.Text
open Asm86.Machine

set_option autoImplicit false

/-! ## Items -/

/-- The words that make a line a directive when they come second in it. -/
def directiveWords : List String := ["SEGMENT", "ENDS", "DB", "DW"]

def firstWord (s : List Char) : List Char := s.takeWhile fun c => !isBlank c

/-- A text that can stand in a list of operands. -/
structure Item (s : List Char) : Prop where
  nonempty : s ≠ []
  tight : Tight s
  plain : ∀ c ∈ s, isQuote c = false ∧ c ≠ ';' ∧ c ≠ ','
  balanced : ∀ depth, s.foldl (depthAfter none) depth = depth
  start : ':' ∉ s.head?
  word : ∀ w ∈ directiveWords, isKeyword w (firstWord s) = false

theorem firstWord_solid {s : List Char} (solid : Solid s) : firstWord s = s :=
  List.takeWhile_eq_self_iff.2 fun c member => by simp [solid c member]

/-- A comma ends a word that is none of the directives. -/
theorem Item.word_append {s : List Char} (item : Item s) (rest : List Char) :
    ∀ w ∈ directiveWords, isKeyword w (firstWord (s ++ ',' :: rest)) = false := by
  intro w directive
  rw [firstWord, List.takeWhile_append]
  split
  · have foreign : ∀ w ∈ directiveWords, ',' ∉ w.toList := by decide
    apply isKeyword_eq_false (c := ',') _ (foreign w directive)
    simp [show isBlank ',' = false by decide]
  · exact item.word w directive

/-- The marks of operands outside brackets. -/
def flatMarks : List Char := ['+', '-', ':', ' ']

/-- All marks that operands have besides names. -/
def operandMarks : List Char := flatMarks ++ ['[', ']']

theorem Made.plain {s : List Char} (made : Made operandMarks s) :
    ∀ c ∈ s, isQuote c = false ∧ c ≠ ';' ∧ c ≠ ',' := by
  intro c member
  refine ⟨?_, ?_, ?_⟩
  · have marks : operandMarks.all (fun c => !isQuote c) = true := by decide
    exact (made c member).elim isQuote_of_isNameChar fun mark => by
      simpa using List.all_eq_true.1 marks c mark
  · exact ne_of_mem_of_not_mem member (made.not_mem (by decide))
  · exact ne_of_mem_of_not_mem member (made.not_mem (by decide))

theorem depthAfter_flat {c : Char} (flat : c ∉ ['[', '(', ']', ')']) (depth : Int) :
    depthAfter none depth c = depth := by
  simp only [List.mem_cons, List.not_mem_nil, or_false, not_or] at flat
  simp [depthAfter, flat]

theorem Made.foldl_depth {s : List Char} (made : Made flatMarks s) (depth : Int) :
    s.foldl (depthAfter none) depth = depth := by
  induction s with
  | nil => rfl
  | cons c rest ih =>
      have flat : c ∉ ['[', '(', ']', ')'] := by
        intro bracket
        simp only [List.mem_cons, List.not_mem_nil, or_false] at bracket
        rcases bracket with rfl | rfl | rfl | rfl <;>
          exact made.not_mem (by decide) (List.mem_cons_self ..)
      rw [List.foldl_cons, depthAfter_flat flat, ih (List.forall_mem_cons.1 made).2]

/-! ## Operands are items -/

/-- A word without brackets. -/
theorem Item.of_flat {s : List Char} (nonempty : s ≠ []) (made : Made ['+', '-', ':'] s)
    (start : ':' ∉ s.head?) (word : ∀ w ∈ directiveWords, isKeyword w s = false) : Item s := by
  have solid : Solid s := made.solid (by decide)
  exact ⟨nonempty, solid.tight, (made.mono (by decide)).plain, (made.mono (by decide)).foldl_depth,
    start, by rwa [firstWord_solid solid]⟩

theorem Unreserved.not_directive {s : List Char} (free : Unreserved s) :
    ∀ w ∈ directiveWords, isKeyword w s = false := by
  have reserved : ∀ w ∈ directiveWords, w ∈ reservedWords := by decide
  exact fun w directive => free w (reserved w directive)

theorem Item.of_register {r : Register} (sized : r.width ≠ .dword) (small : r.id < 8) :
    Item r.name.toList := by
  refine of_flat ?_ (fun c member => .inl ?_) ?_ ?_
  · exact forall_register (P := fun r => r.name.toList ≠ []) (by decide) sized small
  · have letters := forall_register (P := fun r => r.name.toList.all isNameChar = true) (by decide)
      sized small
    exact List.all_eq_true.1 letters c member
  · exact forall_register (P := fun r => ':' ∉ r.name.toList.head?) (by decide) sized small
  · exact forall_register (P := fun r => ∀ w ∈ directiveWords, isKeyword w r.name.toList = false)
      (by decide) sized small

theorem Item.of_segment (s : SegReg) : Item s.name.toList := by
  cases s <;> exact of_flat (by decide) (by decide) (by decide) (by decide)

theorem Summed.start {s : List Char} (summed : Summed s) (rest : List Char) :
    ':' ∉ (s ++ rest).head? := by
  obtain ⟨c, tail, rfl⟩ := List.exists_cons_of_ne_nil summed.nonempty
  intro first
  cases first
  exact summed.not_mem (by decide) (List.mem_cons_self ..)

theorem Summed.item {s : List Char} (summed : Summed s) (free : Unreserved s) : Item s :=
  .of_flat summed.nonempty (summed.chars.mono (by decide)) (s.append_nil ▸ summed.start [])
    free.not_directive

theorem Summed.item_far {s t : List Char} (summed : Summed s) (summed' : Summed t) :
    Item (s ++ ':' :: t) := by
  have free : Unreserved (s ++ ':' :: t) := Unreserved.of_mem (c := ':') (by simp) (by decide)
  have made : Made ['+', '-', ':'] (s ++ ':' :: t) :=
    (summed.chars.mono (by decide)).append (.cons (by decide) (summed'.chars.mono (by decide)))
  exact .of_flat (by simp) made (summed.start _) free.not_directive

theorem overrideText_made (segment : Option SegReg) : Made flatMarks (overrideText segment) := by
  cases segment with
  | none => exact fun _ member => absurd member List.not_mem_nil
  | some s => cases s <;> decide

theorem sizeText_made (width : Option Width) : Made flatMarks (sizeText width) := by
  cases width with
  | none => exact fun _ member => absurd member List.not_mem_nil
  | some w => cases w <;> decide

theorem firstWord_sizeText (w : Width) (rest : List Char) :
    firstWord (sizeText (some w) ++ rest) = w.name.toList := by
  cases w <;> rfl

/-- The text of a memory reference. -/
theorem Summed.item_reference {parts : List Part} (summed : Summed (partsText parts))
    (width : Option Width) (segment : Option SegReg) :
    Item (sizeText width ++ referenceText segment parts) := by
  have size := sizeText_made width
  have front := overrideText_made segment
  have inner : Made flatMarks (partsText parts) := summed.chars.mono (by decide)
  have solid := referenceText_solid segment summed
  have nonempty : referenceText segment parts ≠ [] := by simp [referenceText]
  refine ⟨by simp [nonempty], sizeText_tight width solid nonempty, ?_, ?_, ?_, ?_⟩
  · have wide : flatMarks ⊆ operandMarks := by decide
    have made : Made operandMarks (referenceText segment parts) :=
      (front.mono wide).append
        (.cons (by decide) ((inner.mono wide).append (by decide)))
    exact ((size.mono wide).append made).plain
  · -- Only the brackets of the reference move the depth.
    intro depth
    simp [referenceText, List.foldl_append, size.foldl_depth, front.foldl_depth, inner.foldl_depth,
      depthAfter]
  · cases width with
    | none =>
        cases segment with
        | none => exact fun first => absurd (Option.some.inj first) (by decide)
        | some s => cases s <;> exact fun first => absurd (Option.some.inj first) (by decide)
    | some w => cases w <;> exact fun first => absurd (Option.some.inj first) (by decide)
  · cases width with
    | none =>
        have free : Unreserved (referenceText segment parts) :=
          Unreserved.of_mem (c := '[') (by simp [referenceText]) (by decide)
        intro w directive
        rw [sizeText, List.nil_append, firstWord_solid solid]
        exact free.not_directive w directive
    | some w =>
        rw [firstWord_sizeText]
        cases w <;> decide

theorem Operand.Spelled.item {o : Operand} {text : List Char} (spelled : o.Spelled text)
    (writable : o.Writable) : Item text := by
  cases spelled with
  | reg r => exact .of_register writable.1 writable.2
  | sreg s => exact .of_segment s
  | imm sum =>
      exact (partsText_summed sum.nonempty (sum.writable writable)).item (sum.unreserved writable)
  | far first second =>
      exact (partsText_summed first.nonempty (first.writable writable.1)).item_far
        (partsText_summed second.nonempty (second.writable writable.2))
  | mem sum => exact (partsText_summed sum.nonempty (sum.writable writable)).item_reference _ _

/-! ## Lists of items -/

theorem foldr_onFirstItem (s item : List Char) (rest : List (List Char)) :
    s.foldr onFirstItem (item :: rest) = (s ++ item) :: rest := by
  induction s with
  | nil => rfl
  | cons c s ih =>
      rw [List.foldr_cons, ih]
      rfl

/-- The characters of an item go to the item that they stand in. -/
theorem cutItems_append {s : List Char} (plain : ∀ c ∈ s, isQuote c = false ∧ c ≠ ';' ∧ c ≠ ',')
    (depth : Int) (rest : List Char) :
    cutItems none depth (s ++ rest) =
      s.foldr onFirstItem (cutItems none (s.foldl (depthAfter none) depth) rest) := by
  induction s generalizing depth with
  | nil => rfl
  | cons c s ih =>
      obtain ⟨⟨unquoted, -, comma⟩, later⟩ := List.forall_mem_cons.1 plain
      simp [cutItems, comma, quoteAfter_plain unquoted, ih later]

theorem Item.cutItems_append {s : List Char} (item : Item s) (rest : List Char) :
    cutItems none 0 (s ++ rest) = s.foldr onFirstItem (cutItems none 0 rest) := by
  rw [Source.cutItems_append item.plain, item.balanced]

theorem cutItems_commas {texts : List (List Char)} (items : ∀ t ∈ texts, Item t) :
    cutItems none 0 (texts.flatMap fun item => ',' :: ' ' :: item) =
      [] :: texts.map fun item => ' ' :: item := by
  induction texts with
  | nil => rfl
  | cons t rest ih =>
      obtain ⟨first, later⟩ := List.forall_mem_cons.1 items
      have quote : quoteAfter isQuote none ' ' = none := rfl
      have depth : depthAfter none 0 ' ' = 0 := rfl
      simp [cutItems, quote, depth, first.cutItems_append, ih later, foldr_onFirstItem, onFirstItem]

/-- **Items come back from the commas between them.** -/
theorem splitItems_itemsText {texts : List (List Char)} (items : ∀ t ∈ texts, Item t) :
    splitItems (itemsText texts) = texts := by
  cases texts with
  | nil => rfl
  | cons t rest =>
      obtain ⟨first, later⟩ := List.forall_mem_cons.1 items
      have cut : cutItems none 0 (itemsText (t :: rest)) =
          t :: rest.map fun item => ' ' :: item := by
        rw [itemsText, first.cutItems_append, cutItems_commas later, foldr_onFirstItem,
          List.append_nil]
      cases rest with
      | nil =>
          have shown : allBlank t = false := allBlank_eq_false first.tight.start first.nonempty
          simp [splitItems, cut, shown, trim_tight first.tight]
      | cons next rest =>
          have trimmed : ∀ item ∈ next :: rest, trim (' ' :: item) = item := fun item member => by
            rw [trim_cons_blank (by decide), trim_tight (later item member).tight]
          rw [splitItems, cut]
          show trim t :: ((next :: rest).map fun item => ' ' :: item).map trim = _
          rw [List.map_map, List.map_congr_left (f := trim ∘ _) trimmed, List.map_id',
            trim_tight first.tight]

theorem itemsText_cons_cons (t next : List Char) (rest : List (List Char)) :
    itemsText (t :: next :: rest) = t ++ ([',', ' '] ++ itemsText (next :: rest)) := by
  simp [itemsText]

theorem itemsText_tight {texts : List (List Char)} (items : ∀ t ∈ texts, Item t)
    (nonempty : texts ≠ []) : Tight (itemsText texts) ∧ itemsText texts ≠ [] := by
  induction texts with
  | nil => exact absurd rfl nonempty
  | cons t rest ih =>
      obtain ⟨first, later⟩ := List.forall_mem_cons.1 items
      cases rest with
      | nil => simpa [itemsText] using ⟨first.tight, first.nonempty⟩
      | cons next rest =>
          obtain ⟨tight, shown⟩ := ih later (List.cons_ne_nil _ _)
          rw [itemsText_cons_cons]
          exact ⟨first.tight.around tight first.nonempty shown _, by simp⟩

theorem itemsText_plain {texts : List (List Char)} (items : ∀ t ∈ texts, Item t) :
    ∀ c ∈ itemsText texts, isQuote c = false ∧ c ≠ ';' := by
  have plain : ∀ t, Item t → ∀ c ∈ t, isQuote c = false ∧ c ≠ ';' := fun t item c member =>
    ⟨(item.plain c member).1, (item.plain c member).2.1⟩
  cases texts with
  | nil => exact fun _ member => absurd member List.not_mem_nil
  | cons t rest =>
      obtain ⟨first, later⟩ := List.forall_mem_cons.1 items
      refine List.forall_mem_append.2 ⟨plain t first, fun c member => ?_⟩
      obtain ⟨item, inside, char⟩ := List.mem_flatMap.1 member
      simp only [List.mem_cons] at char
      rcases char with rfl | rfl | char
      · decide
      · decide
      · exact plain item (later item inside) c char

/-- No directive is the first word of a list of items. -/
theorem firstWord_itemsText {texts : List (List Char)} (items : ∀ t ∈ texts, Item t) :
    ∀ w ∈ directiveWords, isKeyword w (firstWord (itemsText texts)) = false := by
  cases texts with
  | nil => decide
  | cons t rest =>
      obtain ⟨first, later⟩ := List.forall_mem_cons.1 items
      cases rest with
      | nil => simpa [itemsText] using first.word
      | cons next rest =>
          rw [itemsText_cons_cons]
          exact first.word_append _

/-! ## Mnemonics -/

theorem mnemonic_mem_spellings (op : Operation) : (op, op.mnemonic) ∈ Operation.spellings := by
  have listed : (Operation.spellings.find? fun entry => entry.1 == op).isSome = true := by
    cases op <;> rfl
  obtain ⟨⟨other, text⟩, found⟩ := Option.isSome_iff_exists.1 listed
  have same := List.find?_some found
  have member := List.mem_of_find?_eq_some found
  rw [Operation.mnemonic, found]
  exact beq_iff_eq.1 same ▸ member

/-- The words that decide a statement before its mnemonic is looked up. -/
def statementWords : List String := ["ASSUME", "END", "DB", "DW"]

/-- Every mnemonic is a word in lower case, and it is none of those that are read otherwise. -/
theorem spellings_words : ∀ entry ∈ Operation.spellings, entry.2.toList ≠ [] ∧
    entry.2.toList.all isNameChar = true ∧ lower entry.2.toList = entry.2.toList ∧
      ∀ w ∈ statementWords ++ directiveWords, (upper entry.2.toList == w.toList) = false := by
  decide +kernel

/-- No two operations share a mnemonic. -/
theorem spellings_unique : ∀ entry ∈ Operation.spellings,
    (Operation.spellings.find? fun other => other.2.toList == entry.2.toList).map (·.1) =
      some entry.1 := by
  decide +kernel

section Lookup

variable {op : Operation} {word : List Char}

theorem exists_spelling (lookup : Operation.ofMnemonic? word = some op) :
    ∃ entry ∈ Operation.spellings, lower word = entry.2.toList := by
  obtain ⟨entry, found, -⟩ := Option.map_eq_some_iff.1 lookup
  have same := List.find?_some found
  exact ⟨entry, List.mem_of_find?_eq_some found, (beq_iff_eq.1 same).symm⟩

theorem keyword_of_lookup (lookup : Operation.ofMnemonic? word = some op) :
    ∀ w ∈ statementWords ++ directiveWords, isKeyword w word = false := by
  obtain ⟨entry, listed, spelled⟩ := exists_spelling lookup
  intro w reserved
  rw [isKeyword, ← upper_lower, spelled]
  exact (spellings_words entry listed).2.2.2 w reserved

theorem worded_of_lookup (lookup : Operation.ofMnemonic? word = some op) : Worded word := by
  obtain ⟨entry, listed, spelled⟩ := exists_spelling lookup
  obtain ⟨nonempty, letters, -⟩ := spellings_words entry listed
  rw [← spelled] at nonempty letters
  rw [List.all_eq_true] at letters
  constructor
  · rintro rfl
    exact nonempty rfl
  · intro c member
    by_cases capital : c.isUpper = true
    · simp [isNameChar, Char.isAlphanum, Char.isAlpha, capital]
    · have image : c.toLower ∈ lower word := List.mem_map_of_mem member
      rw [Char.toLower_eq_of_not_isUpper capital] at image
      exact letters c image

/-- A mnemonic decides its statement. -/
theorem parseStatement_mnemonic (lookup : Operation.ofMnemonic? word = some op) (rest : List Char) :
    parseStatement word rest = parseInstruction word rest := by
  have keyword := keyword_of_lookup lookup
  have assume : isKeyword "ASSUME" word = false := keyword _ (by decide)
  have finish : isKeyword "END" word = false := keyword _ (by decide)
  have bytes : isKeyword "DB" word = false := keyword _ (by decide)
  have words : isKeyword "DW" word = false := keyword _ (by decide)
  simp only [parseStatement, assume, finish, dataWidth?, bytes, words, Bool.or_self,
    Bool.false_eq_true, ↓reduceIte]

end Lookup

/-- A word that is the canonical mnemonic of `op`, in any case. -/
structure Mnemonic (op : Operation) (word : List Char) : Prop where
  spelled : lower word = op.mnemonic.toList

namespace Mnemonic

variable {op : Operation} {word : List Char}

theorem name (op : Operation) : Mnemonic op op.name.toList := by
  constructor
  rw [Operation.name, String.toList_ofList, lower_upper]
  exact (spellings_words _ (mnemonic_mem_spellings op)).2.2.1

theorem lookup (mnemonic : Mnemonic op word) : Operation.ofMnemonic? word = some op := by
  rw [Operation.ofMnemonic?, mnemonic.spelled]
  exact spellings_unique (op, op.mnemonic) (mnemonic_mem_spellings op)

theorem worded (mnemonic : Mnemonic op word) : Worded word := worded_of_lookup mnemonic.lookup

/-- Operands come behind a mnemonic one by one. -/
theorem parseStatement_items (mnemonic : Mnemonic op word) {texts : List (List Char)}
    (items : ∀ t ∈ texts, Item t) (alone : isLead op = true → texts = []) :
    parseStatement word (itemsText texts) =
      (texts.mapM Operand.parse).map (.instruction none op) := by
  have single : ¬ (isLead op = true ∧ itemsText texts ≠ []) := by
    rintro ⟨lead, shown⟩
    exact shown (alone lead ▸ rfl)
  rw [parseStatement_mnemonic mnemonic.lookup, parseInstruction, mnemonic.lookup]
  simp only [single, ↓reduceDIte, splitItems_itemsText items]

end Mnemonic

/-! ## Lines -/

/-- What stands before a colon is no label when a blank is inside it. -/
theorem splitLabel_spaced {front : List Char} (tight : Tight front) {b : Char} (inside : b ∈ front)
    (blank : isBlank b = true) (absent : ':' ∉ front) (rest : List Char) :
    splitLabel (front ++ rest) = (none, front ++ rest) := by
  rw [splitLabel, cutAt?_append_left absent]
  cases cutAt? ':' rest with
  | none => rfl
  | some parts =>
      obtain ⟨kept, trimmed⟩ := trim_append tight (List.ne_nil_of_mem inside) parts.1
      have unnamed : isIdentifier (trim (front ++ parts.1)) = false := by
        rw [trimmed, ← Bool.not_eq_true]
        intro identifier
        have solid := solid_of_isIdentifier identifier b (List.mem_append_left _ inside)
        rw [blank] at solid
        cases solid
      simp only [Option.map_some, unnamed, Bool.false_and, Bool.false_eq_true, ↓reduceIte]

/-- Only a directive word in second place makes the first word a name. -/
theorem parseNamed?_none (first : List Char) {s : List Char} (tight : Tight s)
    (others : ∀ w ∈ directiveWords, isKeyword w (firstWord s) = false) :
    parseNamed? first s = none := by
  have start : isKeyword "SEGMENT" (firstWord s) = false := others _ (by decide)
  have finish : isKeyword "ENDS" (firstWord s) = false := others _ (by decide)
  have bytes : isKeyword "DB" (firstWord s) = false := others _ (by decide)
  have words : isKeyword "DW" (firstWord s) = false := others _ (by decide)
  rw [firstWord] at start finish bytes words
  simp [parseNamed?, splitWord_tight tight, dataWidth?, start, finish, bytes, words]

theorem bodyText_eq (word : List Char) {texts : List (List Char)} (nonempty : texts ≠ []) :
    bodyText word texts = word ++ ' ' :: itemsText texts := by
  cases texts with
  | nil => exact absurd rfl nonempty
  | cons t rest => rfl

namespace Mnemonic

variable {op : Operation} {word : List Char} {texts : List (List Char)}

theorem bodyText_tight (mnemonic : Mnemonic op word) (items : ∀ t ∈ texts, Item t) :
    Tight (bodyText word texts) ∧ bodyText word texts ≠ [] := by
  by_cases none : texts = []
  · subst none
    exact ⟨mnemonic.worded.solid.tight, mnemonic.worded.nonempty⟩
  · obtain ⟨tight, shown⟩ := itemsText_tight items none
    rw [bodyText_eq word none]
    exact ⟨mnemonic.worded.solid.tight.around tight mnemonic.worded.nonempty shown [' '], by simp⟩

theorem splitWord_bodyText (mnemonic : Mnemonic op word) (items : ∀ t ∈ texts, Item t) :
    splitWord (bodyText word texts) = (word, itemsText texts) := by
  by_cases none : texts = []
  · subst none
    exact splitWord_solid mnemonic.worded.solid
  · obtain ⟨tight, shown⟩ := itemsText_tight items none
    rw [bodyText_eq word none]
    exact splitWord_append mnemonic.worded.solid mnemonic.worded.nonempty tight shown

theorem bodyText_plain (mnemonic : Mnemonic op word) (items : ∀ t ∈ texts, Item t) :
    ∀ c ∈ bodyText word texts, isQuote c = false ∧ c ≠ ';' := by
  by_cases none : texts = []
  · subst none
    exact mnemonic.worded.plain
  · rw [bodyText_eq word none]
    exact List.forall_mem_append.2
      ⟨mnemonic.worded.plain, List.forall_mem_cons.2 ⟨by decide, itemsText_plain items⟩⟩

/-- Without a label, what stands before a colon has a blank in it. -/
theorem splitLabel_bodyText (mnemonic : Mnemonic op word) (items : ∀ t ∈ texts, Item t) :
    splitLabel (bodyText word texts) = (none, bodyText word texts) := by
  cases texts with
  | nil =>
      have absent : cutAt? ':' word = none :=
        cutAt?_of_not_mem (mnemonic.worded.not_mem (by decide))
      simp [splitLabel, bodyText, absent]
  | cons t rest =>
      obtain ⟨first, later⟩ := List.forall_mem_cons.1 items
      obtain ⟨c, tail, rfl⟩ := List.exists_cons_of_ne_nil first.nonempty
      have single : Solid [c] := fun d member => by
        rw [List.mem_singleton.1 member]
        exact first.tight.start c rfl
      have front : Tight (word ++ [' ', c]) :=
        mnemonic.worded.solid.tight.around single.tight mnemonic.worded.nonempty (by simp) [' ']
      have split : bodyText word ((c :: tail) :: rest) =
          (word ++ [' ', c]) ++ (tail ++ rest.flatMap fun item => ',' :: ' ' :: item) := by
        simp [bodyText, itemsText]
      have absent : ':' ∉ word ++ [' ', c] := by
        have letters : ':' ∉ word := mnemonic.worded.not_mem (by decide)
        have start : ':' ≠ c := fun same => first.start (congrArg some same.symm)
        simp [letters, start]
      rw [split]
      exact splitLabel_spaced front (b := ' ') (by simp) (by decide) absent _

theorem parseNamed?_items (word : List Char) (items : ∀ t ∈ texts, Item t) :
    parseNamed? word (itemsText texts) = none := by
  have tight : Tight (itemsText texts) := by
    by_cases none : texts = []
    · subst none
      exact Solid.tight fun _ member => absurd member List.not_mem_nil
    · exact (itemsText_tight items none).1
  exact parseNamed?_none word tight (firstWord_itemsText items)

theorem parseBody_bodyText (mnemonic : Mnemonic op word) (items : ∀ t ∈ texts, Item t)
    (alone : isLead op = true → texts = []) (label : Option String) :
    parseBody label (bodyText word texts) =
      (texts.mapM Operand.parse).map fun operands => ⟨label, .instruction none op operands⟩ := by
  have shown : (bodyText word texts).isEmpty = false :=
    List.isEmpty_eq_false_iff.2 (mnemonic.bodyText_tight items).2
  simp only [parseBody, shown, Bool.false_eq_true, ↓reduceIte, mnemonic.splitWord_bodyText items,
    parseNamed?_items word items, ite_self, mnemonic.parseStatement_items items alone]
  cases texts.mapM Operand.parse <;> rfl

end Mnemonic

/-- **A line of a mnemonic and items is read item by item.** -/
theorem Line.parse_lineText {label : Option String} (labelled : ∀ name ∈ label, LabelName name)
    {op : Operation} {word : List Char} (mnemonic : Mnemonic op word) {texts : List (List Char)}
    (items : ∀ t ∈ texts, Item t) (alone : isLead op = true → texts = []) :
    Line.parse (lineText label word texts) =
      (texts.mapM Operand.parse).map fun operands => ⟨label, .instruction none op operands⟩ := by
  obtain ⟨tight, shown⟩ := mnemonic.bodyText_tight items
  have plain := mnemonic.bodyText_plain items
  rw [← mnemonic.parseBody_bodyText items alone label]
  cases label with
  | none =>
      rw [Line.parse, lineText, stripComment_plain plain, trim_tight tight,
        mnemonic.splitLabel_bodyText items]
  | some name =>
      obtain ⟨identifier, notSegment⟩ := labelled name rfl
      have worded := Worded.of_isIdentifier identifier
      have whole : Tight (lineText (some name) word texts) :=
        worded.solid.tight.around tight worded.nonempty shown [':', ' ']
      have behind : ∀ c ∈ ':' :: ' ' :: bodyText word texts, isQuote c = false ∧ c ≠ ';' :=
        List.forall_mem_cons.2 ⟨by decide, List.forall_mem_cons.2 ⟨by decide, plain⟩⟩
      have code : stripComment (lineText (some name) word texts) =
          lineText (some name) word texts :=
        stripComment_plain (List.forall_mem_append.2 ⟨worded.plain, behind⟩)
      have body : trim (' ' :: bodyText word texts) = bodyText word texts := by
        rw [trim_cons_blank (by decide), trim_tight tight]
      have cut : splitLabel (lineText (some name) word texts) =
          (some name, bodyText word texts) := by
        rw [splitLabel, lineText, cutAt?_append (worded.not_mem (by decide))]
        simp [trim_tight worded.solid.tight, identifier, notSegment, body]
      rw [Line.parse, code, trim_tight whole, cut]

theorem mapM_parse_spelled {operands : List Operand} {texts : List (List Char)}
    (spelled : List.Forall₂ Operand.Spelled operands texts)
    (writable : ∀ o ∈ operands, o.Writable) : texts.mapM Operand.parse = .ok operands := by
  rw [Checked.mapM_eq_ok]
  induction spelled with
  | nil => exact .nil
  | cons first _ ih =>
      obtain ⟨head, later⟩ := List.forall_mem_cons.1 writable
      exact .cons (Operand.parse_spelled first head) (ih later)

/-- **Reading undoes writing.**  An instruction line in any spelling of its mnemonic and its
operands gives back its label, its operation and its operands, and there are always such
spellings. -/
theorem Line.parse_undoes_writing (label : Option String) (op : Operation)
    (operands : List Operand) (labelled : ∀ name ∈ label, LabelName name)
    (writable : ∀ o ∈ operands, o.Writable) (alone : isLead op = true → operands = []) :
    Mnemonic op op.name.toList ∧ (∃ texts, List.Forall₂ Operand.Spelled operands texts) ∧
      ∀ word texts, Mnemonic op word → List.Forall₂ Operand.Spelled operands texts →
        Line.parse (lineText label word texts) = .ok ⟨label, .instruction none op operands⟩ := by
  refine ⟨.name op, exists_spelled_items operands, fun word texts mnemonic spelled => ?_⟩
  have items : ∀ t ∈ texts, Item t := by
    intro t member
    obtain ⟨o, mem, text⟩ := Checked.exists_of_mem_right spelled member
    exact text.item (writable o mem)
  have single : isLead op = true → texts = [] := fun lead => by
    have none := alone lead
    subst none
    cases spelled
    rfl
  rw [Line.parse_lineText labelled mnemonic items single, mapM_parse_spelled spelled writable]
  rfl

/-- A label, a size, an override, and the terms of a reference out of their usual order. -/
theorem Line.parse_undoes_writing_mixed_order :
    Line.parse "again: Mov WORD PTR ES:[-3+SI+table+BX], start".toList =
      .ok ⟨some "again", .instruction none .mov
        [.mem { width := some .word, segment := some .es, base := some .bx, index := some .si,
                disp := { value := -3, symbol := some "table" } },
          .imm { symbol := some "start" }]⟩ := by
  have parts : PartsOf (some .bx) (some .si) { value := -3, symbol := some "table" }
      [.constant (-3), .index .si, .name "table", .base .bx] :=
    ⟨by decide, some (-3), rfl, by decide⟩
  have target : PartsOf none none { symbol := some "start" } [.name "start"] :=
    ⟨by decide, none, rfl, by decide⟩
  have text : "again: Mov WORD PTR ES:[-3+SI+table+BX], start".toList =
      lineText (some "again") "Mov".toList
        [sizeText (some .word) ++
            referenceText (some .es) [.constant (-3), .index .si, .name "table", .base .bx],
          partsText [.name "start"]] := by
    decide +kernel
  have free : FreeName "table" ∧ FreeName "start" :=
    ⟨⟨by decide, by unfold Unreserved; decide⟩, ⟨by decide, by unfold Unreserved; decide⟩⟩
  rw [text]
  refine (Line.parse_undoes_writing (some "again") .mov _ ?_ ?_ ?_).2.2 "Mov".toList _
    ⟨by decide⟩ (.cons (.mem parts) (.cons (.imm target) .nil))
  · rintro name ⟨⟩
    exact ⟨by decide, by decide⟩
  · simp only [List.forall_mem_cons, List.not_mem_nil, false_imp_iff, implies_true, and_true]
    refine ⟨⟨?_, by decide⟩, ?_, by decide⟩
    · rintro name ⟨⟩
      exact free.1
    · rintro name ⟨⟩
      exact free.2
  · decide

end Asm86.Source
