/-
# Asm86.Proofs.Source.Brackets -- signs and brackets in memory references

In a memory reference brackets stand among the signs: an opening one is a plus and a closing one is
nothing.  The terms of the reference are then those of a sum with the same signs
(`SignedSum.flatten_text`, `signs_flatten`), so that an opening bracket makes the reader forget a
minus before it as a plus does.

Before the terms may stand a size and an override (`MemoryLead`).  A size is cut off word by word,
and an override ends in the first colon, so that neither touches the signs behind it
(`MemoryLead.taken`).
-/
import Asm86.Proofs.Source.Operands
import Asm86.Proofs.Source.Signs

namespace Asm86.Source

open Asm86.Text
open Asm86.Machine

set_option autoImplicit false

variable {back : List Char} {parts : List Summand}

/-! ## Brackets -/

namespace MemoryRef

theorem flatten_append (s t : List Char) : flatten (s ++ t) = flatten s ++ flatten t := by
  simp [flatten]

theorem flatten_bracket (s : List Char) : flatten ('[' :: s) = '+' :: flatten s := by
  simp [flatten]

theorem mem_flatten {s : List Char} {c : Char} (member : c ∈ flatten s) :
    (c = '+' ∧ '[' ∈ s) ∨ (c ∈ s ∧ c ≠ '[' ∧ c ≠ ']') := by
  simp only [flatten, List.mem_map, List.mem_filter, bne_iff_ne] at member
  obtain ⟨d, ⟨inside, kept⟩, rfl⟩ := member
  by_cases bracket : d = '['
  · subst bracket
    exact .inl ⟨rfl, inside⟩
  · simp [bracket, inside, kept]

/-- Without brackets nothing changes. -/
theorem flatten_of_not_mem {s : List Char} (left : '[' ∉ s) (right : ']' ∉ s) : flatten s = s := by
  have kept : s.filter (fun c => c != ']') = s :=
    List.filter_eq_self.2 fun c member => by simpa using ne_of_mem_of_not_mem member right
  have same : ∀ c ∈ s, (if c == '[' then '+' else c) = c := fun c member => by
    simp [ne_of_mem_of_not_mem member left]
  rw [flatten, kept, List.map_congr_left same, List.map_id']

theorem flatten_allBlank {s : List Char} (blank : allBlank s = true) : flatten s = s :=
  flatten_of_not_mem (not_mem_of_allBlank blank (by decide)) (not_mem_of_allBlank blank (by decide))

theorem ofText_flatten_append {back : List Char} (blank : allBlank back = true) (s : List Char) :
    Terms.ofText (flatten (s ++ back)) = Terms.ofText (flatten s) := by
  rw [flatten_append, flatten_allBlank blank]
  exact Terms.under_append_blank blank false _

theorem ofText_flatten_trim (s : List Char) :
    Terms.ofText (flatten (trim s)) = Terms.ofText (flatten s) := by
  obtain ⟨front, back, blankFront, blankBack, whole⟩ := trim_parts s
  conv_rhs => rw [whole, ← List.append_assoc]
  rw [ofText_flatten_append blankBack, flatten_append, flatten_allBlank blankFront]
  exact (Terms.under_blanks blankFront false _).symm

/-- The terms of a text add up to the reference. -/
def Taken (s : List Char) (m : MemoryRef) : Prop :=
  ∃ start : MemoryRef, start.disp = {} ∧ (Terms.ofText (flatten s)).complete = true ∧
    (Terms.ofText (flatten s)).terms.foldlM addTerm start = .ok m

theorem Taken.congr {s t : List Char} {m : MemoryRef} (taken : Taken s m)
    (same : Terms.ofText (flatten s) = Terms.ofText (flatten t)) : Taken t m := by
  rwa [Taken, ← same]

theorem taken_of_foldText {s : List Char} {m start : MemoryRef} (fresh : start.disp = {})
    (folded : Terms.foldText addTerm start (flatten s) = .ok m) : Taken s m :=
  ⟨start, fresh, Terms.foldText_eq_ok.1 folded⟩

/-- Behind an override, or in the whole text without one, stand the terms. -/
theorem taken_of_parse {s : List Char} {width : Option Width} {m : MemoryRef}
    (read : parse s width = .ok m) : Taken (((cutAt? ':' (trim s)).map Prod.snd).getD s) m := by
  obtain ⟨⟨segment, body⟩, cut, folded⟩ := Checked.bind_eq_ok.1 read
  have taken : Taken body m := taken_of_foldText rfl folded
  unfold splitOverride at cut
  split at cut
  · rename_i uncut
    cases cut
    rw [uncut]
    exact taken.congr (ofText_flatten_trim s)
  · rename_i before after found
    rw [found]
    dsimp only at cut
    split at cut
    · cases cut
    · cases cut
      split at taken
      · refine taken.congr ?_
        rw [flatten_bracket]
        exact Terms.under_plus false (flatten after)
      · exact taken

end MemoryRef

/-- The summand with its brackets read as signs. -/
def Summand.flat (p : Summand) : Summand := ⟨MemoryRef.flatten p.run, p.word⟩

theorem signs_flatten (run : List Char) : signs (MemoryRef.flatten run) = signs run := by
  induction run with
  | nil => rfl
  | cons c run ih =>
      by_cases right : c = ']'
      · have skip : MemoryRef.flatten (c :: run) = MemoryRef.flatten run := by
          simp [MemoryRef.flatten, right]
        have unsigned : signs (c :: run) = signs run := by simp [signs, right]
        rw [skip, ih, unsigned]
      · by_cases left : c = '['
        · have signed : signs (c :: run) = false :: signs run := by simp [signs, left]
          rw [signed, ← ih, left, MemoryRef.flatten_bracket]
          simp [signs]
        · have same : MemoryRef.flatten (c :: run) = c :: MemoryRef.flatten run := by
            simp [MemoryRef.flatten, right, left]
          rw [same, signs, List.filterMap_cons, signs, List.filterMap_cons]
          rw [signs, signs] at ih
          rw [ih]

theorem OfMarks.flatten {run : List Char} (made : OfMarks bracketMarks run) :
    OfMarks signMarks (MemoryRef.flatten run) := by
  intro c member
  rcases MemoryRef.mem_flatten member with ⟨rfl, -⟩ | ⟨inside, left, right⟩
  · exact .inl (by decide)
  · refine (made c inside).imp_left fun mark => ?_
    simpa [bracketMarks, left, right, mem_signMarks] using mark

theorem SignedSum.flatten (sum : SignedSum bracketMarks parts back) :
    SignedSum signMarks (parts.map Summand.flat) (MemoryRef.flatten back) where
  words := List.forall_mem_map.2 sum.words
  runs := List.forall_mem_map.2 fun p member => (sum.runs p member).flatten
  apart := by
    rw [← List.map_tail]
    refine List.forall_mem_map.2 fun p member => ?_
    rw [Summand.flat, signs_flatten]
    exact sum.apart p member
  ending c member := by
    rcases MemoryRef.mem_flatten member with ⟨-, inside⟩ | ⟨inside, -, right⟩
    · rcases sum.ending _ inside with ⟨bracket, -⟩ | blank
      · exact absurd bracket (by decide)
      · exact absurd blank (by decide)
    · exact .inr ((sum.ending c inside).resolve_left fun bracket => right bracket.1)

theorem SignedSum.flatten_text (sum : SignedSum bracketMarks parts back) :
    MemoryRef.flatten (signedText parts back) =
      signedText (parts.map Summand.flat) (MemoryRef.flatten back) := by
  induction parts with
  | nil => rfl
  | cons p parts ih =>
      have worded := (sum.words p (List.mem_cons_self ..)).worded
      have word : MemoryRef.flatten p.word = p.word :=
        MemoryRef.flatten_of_not_mem (worded.not_mem (by decide)) (worded.not_mem (by decide))
      rw [signedText_cons, MemoryRef.flatten_append, MemoryRef.flatten_append, word, ih sum.tail,
        List.map_cons, signedText_cons, Summand.flat]

theorem SignedSum.reading_of_taken (sum : SignedSum bracketMarks parts back) {m : MemoryRef}
    (taken : MemoryRef.Taken (signedText parts back) m) : Reading parts m.disp.value := by
  obtain ⟨start, fresh, complete, folded⟩ := taken
  rw [sum.flatten_text] at complete folded
  have zero : start.disp.value = 0 := by rw [fresh]
  obtain ⟨undoubled, value, named⟩ := sum.flatten.reading MemoryRef.addsUp zero complete folded
  have same : ∀ p : Summand, endsInMinus p.flat.run = endsInMinus p.run := fun p => by
    rw [endsInMinus, Summand.flat, signs_flatten, endsInMinus]
  refine ⟨fun p member => ?_, ?_, fun p member identifier => ?_⟩
  · have flat := undoubled p.flat (List.mem_map_of_mem member)
    rwa [Undoubled, Summand.flat, signs_flatten] at flat
  · rw [value, total, total, List.map_map]
    congr 1
    exact List.map_congr_left fun p _ => by simp only [Function.comp_apply, same]; rfl
  · rw [← same]
    exact named p.flat (List.mem_map_of_mem member) identifier

/-! ## Operands -/

theorem width_name_letters (w : Width) :
    w.name.toList.all Char.isAlpha = true ∧ w.name.toList ≠ [] := by
  cases w <;> decide

theorem splitWidth_sized {s rest : List Char} {w : Width}
    (stripped : stripKeyword? w.name s = some rest) :
    splitWidth s = (some w, (stripKeyword? "PTR" rest).getD rest) := by
  simp only [stripKeyword?, Option.ite_none_right_eq_some, Option.some.injEq] at stripped
  obtain ⟨found, rfl⟩ := stripped
  have spelled : ∀ keyword, isKeyword keyword (splitWord s).1 = (w.name.toList == keyword.toList) := by
    intro keyword
    rw [isKeyword, beq_iff_eq.1 found]
  unfold splitWidth
  dsimp only
  rw [spelled, spelled, spelled]
  cases w <;> rfl

theorem splitWidth_unsized {s : List Char} (unsized : ∀ w : Width, stripKeyword? w.name s = none) :
    splitWidth s = (none, s) := by
  have others : Unsized (splitWord s).1 := fun w => by simpa [stripKeyword?] using unsized w
  have byte : isKeyword "BYTE" (splitWord s).1 = false := others .byte
  have word : isKeyword "WORD" (splitWord s).1 = false := others .word
  have dword : isKeyword "DWORD" (splitWord s).1 = false := others .dword
  simp [splitWidth, byte, word, dword]

/-- What is left of a text when something without brackets and colons is cut off in front, and
blanks at the end. -/
def Within (rest s : List Char) : Prop :=
  ∃ front back, s = front ++ (rest ++ back) ∧ '[' ∉ front ∧ ':' ∉ front ∧ allBlank back = true

namespace Within

variable {r s t : List Char}

theorem refl (s : List Char) : Within s s := ⟨[], [], by simp, by simp, by simp, rfl⟩

theorem trans (inner : Within r s) (outer : Within s t) : Within r t := by
  obtain ⟨front, back, rfl, left, colon, blank⟩ := inner
  obtain ⟨front', back', rfl, left', colon', blank'⟩ := outer
  refine ⟨front' ++ front, back ++ back', by simp, ?_, ?_, ?_⟩
  · simp [left, left']
  · simp [colon, colon']
  · rw [allBlank, List.all_append]
    exact Bool.and_eq_true_iff.2 ⟨blank, blank'⟩

theorem trim (s : List Char) : Within (trim s) s := by
  obtain ⟨front, back, blankFront, blankBack, whole⟩ := trim_parts s
  exact ⟨front, back, whole, not_mem_of_allBlank blankFront (by decide),
    not_mem_of_allBlank blankFront (by decide), blankBack⟩

theorem strip {keyword : String} (letters : keyword.toList.all Char.isAlpha = true)
    (stripped : stripKeyword? keyword s = some r) : Within r s := by
  simp only [stripKeyword?, Option.ite_none_right_eq_some, Option.some.injEq] at stripped
  obtain ⟨found, rfl⟩ := stripped
  obtain ⟨gap, blank, whole⟩ := splitWord_parts s
  have absent : ∀ c, c.toUpper.isAlpha = false → c ∉ (splitWord s).1 := by
    intro c foreign member
    rw [isKeyword_eq_false member fun inside => by simp [List.all_eq_true.1 letters _ inside] at foreign]
      at found
    cases found
  have inner : Within (splitWord s).2 (Text.trim s) := by
    refine ⟨(splitWord s).1 ++ gap, [], by rw [whole]; simp, ?_, ?_, rfl⟩
    · simp [absent '[' (by decide), not_mem_of_allBlank blank (c := '[') (by decide)]
    · simp [absent ':' (by decide), not_mem_of_allBlank blank (c := ':') (by decide)]
  exact inner.trans (trim s)

theorem splitWidth (s : List Char) : Within (splitWidth s).2 s := by
  by_cases unsized : ∀ w : Width, stripKeyword? w.name s = none
  · rw [splitWidth_unsized unsized]
    exact refl s
  · simp only [not_forall, ← ne_eq, Option.ne_none_iff_exists'] at unsized
    obtain ⟨w, rest, stripped⟩ := unsized
    rw [splitWidth_sized stripped]
    have outer : Within rest s := strip (width_name_letters w).1 stripped
    cases pointer : stripKeyword? "PTR" rest with
    | none => exact outer
    | some body => exact (strip (by decide) pointer).trans outer

theorem bracket (within : Within r s) (member : '[' ∈ s) : '[' ∈ r := by
  obtain ⟨front, back, rfl, left, -, blank⟩ := within
  have absent : '[' ∉ back := not_mem_of_allBlank blank (by decide)
  simpa [left, absent] using member

theorem cut (within : Within r s) {before after : List Char}
    (found : cutAt? ':' s = some (before, after)) :
    ∃ before' after' more, cutAt? ':' r = some (before', after') ∧ after = after' ++ more ∧
      allBlank more = true := by
  obtain ⟨front, back, rfl, -, colon, blank⟩ := within
  rw [cutAt?_append_left colon, cutAt?_append_right (not_mem_of_allBlank blank (by decide)),
    Option.map_map] at found
  obtain ⟨⟨before', after'⟩, inner, same⟩ := Option.map_eq_some_iff.1 found
  cases same
  exact ⟨before', after', back, inner, rfl, blank⟩

end Within

theorem Operand.parse_bracketed {s : List Char} {o : Operand} (bracket : '[' ∈ s)
    (read : Operand.parse s = .ok o) :
    ∃ m width, o = .mem m ∧ MemoryRef.parse (splitWidth (trim s)).2 width = .ok m := by
  have held : '[' ∈ (splitWidth (trim s)).2 :=
    (Within.splitWidth _).bracket ((Within.trim s).bracket bracket)
  simp only [Operand.parse, List.contains_iff_mem.2 held, ↓reduceIte] at read
  obtain ⟨m, parsed, rfl⟩ := Checked.map_eq_ok.1 read
  exact ⟨m, _, rfl, parsed⟩

/-- What may stand before the terms of a memory reference: the words for a size, or anything that
ends in the first colon. -/
inductive MemoryLead : List Char → Prop where
  | bare : MemoryLead []
  | size {w : Width} {word gap : List Char} (named : isKeyword w.name word = true)
      (apart : gap ≠ []) (blank : allBlank gap = true) : MemoryLead (word ++ gap)
  | pointer {w : Width} {word gap ptr gap' : List Char} (named : isKeyword w.name word = true)
      (apart : gap ≠ []) (blank : allBlank gap = true) (pointer : isKeyword "PTR" ptr = true)
      (apart' : gap' ≠ []) (blank' : allBlank gap' = true) :
      MemoryLead (word ++ (gap ++ (ptr ++ gap')))
  | override {before : List Char} (first : ':' ∉ before) : MemoryLead (before ++ [':'])

theorem stripKeyword?_spelled {keyword : String} {word gap : List Char}
    (letters : keyword.toList.all Char.isAlpha = true ∧ keyword.toList ≠ [])
    (found : isKeyword keyword word = true) (apart : gap ≠ []) (blank : allBlank gap = true)
    (s : List Char) : stripKeyword? keyword (trim (word ++ (gap ++ s))) = some (trim s) := by
  have worded := Worded.of_isKeyword letters.1 letters.2 found
  have behind : ∀ c ∈ (gap ++ s).head?, isBlank c = true := by
    obtain ⟨b, rest, rfl⟩ := List.exists_cons_of_ne_nil apart
    intro c first
    cases first
    exact List.all_eq_true.1 blank b (List.mem_cons_self ..)
  simp only [stripKeyword?, splitWord_trim, splitWord_word worded.solid worded.nonempty behind, found,
    ↓reduceIte, trim_append_left blank]

theorem SignedSum.not_mem_colon (sum : SignedSum bracketMarks parts back) :
    ':' ∉ signedText parts back := by
  have unmarked : ¬ (':' ∈ bracketMarks ∨ isBlank ':' = true) := by decide
  induction parts with
  | nil => exact fun member => unmarked ((sum.ending _ member).imp_left And.right)
  | cons p parts ih =>
      have worded := (sum.words p (List.mem_cons_self ..)).worded
      rw [signedText_cons, List.mem_append, List.mem_append]
      rintro (run | word | later)
      · exact unmarked (sum.runs p (List.mem_cons_self ..) _ run)
      · exact worded.not_mem (by decide) word
      · exact ih sum.tail later

/-- The size in front of a sum may be its first terms. -/
theorem SignedSum.splitWidth (sum : SignedSum bracketMarks parts back) :
    ∃ others, Skips parts others ∧
      (Source.splitWidth (trim (signedText parts back))).2 = trim (signedText others back) := by
  by_cases unsized : ∀ w : Width, stripKeyword? w.name (trim (signedText parts back)) = none
  · rw [splitWidth_unsized unsized]
    exact ⟨parts, .refl parts, rfl⟩
  · simp only [not_forall, ← ne_eq, Option.ne_none_iff_exists'] at unsized
    obtain ⟨w, rest, stripped⟩ := unsized
    obtain ⟨others, skips, rfl⟩ := sum.strip (by simp) (width_name_letters w).1 stripped
    obtain ⟨last, skips', body⟩ := (skips.sum sum).strip_getD (by simp) "PTR" (by decide)
    exact ⟨last, skips.trans skips', by rw [splitWidth_sized stripped, ← body]⟩

theorem MemoryLead.taken {lead : List Char} (leads : MemoryLead lead)
    (sum : SignedSum bracketMarks parts back) {width : Option Width} {m : MemoryRef}
    (read : MemoryRef.parse (splitWidth (trim (lead ++ signedText parts back))).2 width = .ok m) :
    ∃ others, Skips parts others ∧ MemoryRef.Taken (signedText others back) m := by
  -- Without an override the terms are all that is left behind the size.
  have whole : ∀ {others}, Skips parts others →
      (splitWidth (trim (lead ++ signedText parts back))).2 = trim (signedText others back) →
      ∃ others, Skips parts others ∧ MemoryRef.Taken (signedText others back) m := by
    intro others skips body
    have uncut : cutAt? ':' (trim (signedText others back)) = none := by
      apply cutAt?_of_not_mem
      intro member
      obtain ⟨front, rest, -, -, parts⟩ := trim_parts (signedText others back)
      exact (skips.sum sum).not_mem_colon (by rw [parts]; simp [member])
    rw [body] at read
    have taken := MemoryRef.taken_of_parse read
    rw [trim_tight (tight_trim _), uncut] at taken
    exact ⟨others, skips, taken.congr (MemoryRef.ofText_flatten_trim _)⟩
  cases leads with
  | bare =>
      obtain ⟨others, skips, body⟩ := sum.splitWidth
      exact whole skips body
  | @size w word gap named apart blank =>
      have stripped := stripKeyword?_spelled (width_name_letters w) named apart blank
        (signedText parts back)
      obtain ⟨others, skips, body⟩ := sum.strip_getD (by simp) "PTR" (by decide)
      refine whole skips ?_
      rw [List.append_assoc, splitWidth_sized stripped, body]
  | @pointer w word gap ptr gap' named apart blank pointer apart' blank' =>
      have stripped := stripKeyword?_spelled (width_name_letters w) named apart blank
        (ptr ++ (gap' ++ signedText parts back))
      have letters : "PTR".toList.all Char.isAlpha = true ∧ "PTR".toList ≠ [] := by decide
      have stripped' := stripKeyword?_spelled letters pointer apart' blank' (signedText parts back)
      refine whole (.refl parts) ?_
      simp only [List.append_assoc]
      rw [splitWidth_sized stripped, stripped', Option.getD_some]
  | @override before first =>
      have within : Within (trim (splitWidth (trim (before ++ [':'] ++ signedText parts back))).2)
          (before ++ [':'] ++ signedText parts back) :=
        ((Within.trim _).trans (Within.splitWidth _)).trans (Within.trim _)
      have found : cutAt? ':' (before ++ [':'] ++ signedText parts back) =
          some (before, signedText parts back) := by
        rw [List.append_assoc]
        exact cutAt?_append first _
      obtain ⟨before', after', more, cut, text, blank⟩ := within.cut found
      have taken := MemoryRef.taken_of_parse read
      rw [cut] at taken
      refine ⟨parts, .refl parts, taken.congr ?_⟩
      rw [text, MemoryRef.ofText_flatten_append blank]
      rfl

/-- **Of a run of signs the last one counts.**  A sum that is taken has no two minus signs in a row.
Its numbers are added up under the last signs of their runs, and no name or register stands under
a minus there.  That is arithmetic where no plus or bracket comes right behind a minus. -/
theorem last_sign_decides (lead : List Char) (parts : List Summand) (back : List Char) :
    (∀ e, SignedSum signMarks parts back → Expr.parse (signedText parts back) = .ok e →
      Reading parts e.value ∧
        ((∀ p ∈ parts, Unforgetting p.run) → Reads oddMinus parts e.value)) ∧
    ∀ o, MemoryLead lead → SignedSum bracketMarks parts back →
      '[' ∈ lead ++ signedText parts back → Operand.parse (lead ++ signedText parts back) = .ok o →
      ∃ m, o = .mem m ∧ Reading parts m.disp.value ∧
        ((∀ p ∈ parts, Unforgetting p.run) → Reads oddMinus parts m.disp.value) := by
  constructor
  · intro e sum read
    have reading := Expr.reading sum read
    exact ⟨reading, reading.arithmetic⟩
  · intro o leads sum bracket read
    obtain ⟨m, width, rfl, parsed⟩ := Operand.parse_bracketed bracket read
    obtain ⟨others, skips, taken⟩ := leads.taken sum parsed
    have reading := ((skips.sum sum).reading_of_taken taken).of_skips skips
    exact ⟨m, rfl, reading, reading.arithmetic⟩

/-- In the expression the plus signs do no harm; in the reference one hides a minus. -/
theorem last_sign_decides_sums :
    let sum : List Summand :=
      [⟨"- ".toList, "3".toList⟩, ⟨" + ".toList, "total".toList⟩, ⟨" +- ".toList, "4".toList⟩]
    let reference : List Summand :=
      [⟨[], "table".toList⟩, ⟨"[".toList, "BX".toList⟩, ⟨"-+".toList, "2".toList⟩]
    Expr.parse (signedText sum []) = .ok ⟨-7, some "total"⟩ ∧ Reads oddMinus sum (-7) ∧
      Operand.parse ("BYTE PTR ".toList ++ signedText reference "]".toList) =
        .ok (.mem ⟨some .byte, none, some .bx, none, ⟨2, some "table"⟩⟩) ∧
      Reading reference 2 := by
  intro sum reference
  have unforgetting : ∀ p ∈ sum, Unforgetting p.run := by
    simp only [sum, List.forall_mem_cons, List.not_mem_nil, false_imp_iff, implies_true, and_true]
    decide
  have lead : MemoryLead "BYTE PTR ".toList :=
    @MemoryLead.pointer .byte "BYTE".toList [' '] "PTR".toList [' '] (by decide) (by decide)
      (by decide) (by decide) (by decide) (by decide)
  have read : Operand.parse ("BYTE PTR ".toList ++ signedText reference "]".toList) =
      .ok (.mem ⟨some .byte, none, some .bx, none, ⟨2, some "table"⟩⟩) := by decide
  obtain ⟨-, arithmetic⟩ :=
    (last_sign_decides [] sum []).1 ⟨-7, some "total"⟩ (by decide) (by decide)
  obtain ⟨m, same, reading, -⟩ :=
    (last_sign_decides "BYTE PTR ".toList reference "]".toList).2 _ lead (by decide) (by decide) read
  cases same
  exact ⟨by decide, arithmetic unforgetting, read, reading⟩

/-- A minus is lost behind which a plus or a bracket follows. -/
theorem minus_forgotten :
    Expr.parse "-+5".toList = .ok ⟨5, none⟩ ∧
      Operand.parse "5-[BX]".toList = .ok (.mem ⟨none, none, some .bx, none, ⟨5, none⟩⟩) := by
  decide

end Asm86.Source
