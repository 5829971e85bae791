/-
# Asm86.Proofs.Source.Leads -- repeat and lock words in front of an instruction

`Leads ops text` says that `text` is such words, each with blanks behind it.  A statement has one
place for them.  The reader fills it anew at each word, going outwards, so that the first word of
the line is the one that stays (`Leads.parse_append`).
-/
import Asm86.Proofs.Source.RoundTrip

namespace Asm86.Source

open Asm86.Text
open Asm86.Machine
open Asm86.Checked

set_option autoImplicit false

/-- The text is words for the operations, in this order. -/
inductive Leads : List Operation → List Char → Prop where
  | nil : Leads [] []
  | cons {op : Operation} {ops : List Operation} {word gap text : List Char}
      (lookup : Operation.ofMnemonic? word = some op) (lead : isLead op = true) (apart : gap ≠ [])
      (blank : allBlank gap = true) (rest : Leads ops text) :
      Leads (op :: ops) (word ++ (gap ++ text))

theorem Leads.head_isLead {op : Operation} {ops : List Operation} {text : List Char}
    (leads : Leads (op :: ops) text) : isLead op = true := by
  cases leads with
  | cons _ lead => exact lead

/-! ## Lines that are an instruction -/

variable {lead : Option Operation} {op : Operation} {operands : List Operand}

theorem parseInstruction_lookup {word rest : List Char} {st : Statement}
    (read : parseInstruction word rest = .ok st) :
    ∃ op, Operation.ofMnemonic? word = some op := by
  rw [parseInstruction] at read
  cases found : Operation.ofMnemonic? word with
  | none => simp [found] at read
  | some op => exact ⟨op, rfl⟩

theorem parseData_data {width : Width} {s : List Char} {st : Statement}
    (read : parseData width s = .ok st) : ∃ items, st = .data width items := by
  unfold parseData at read
  split at read
  · cases read
  · obtain ⟨items, -, rfl⟩ := map_eq_ok.1 read
    exact ⟨items, rfl⟩

theorem parseStatement_instruction {first rest : List Char}
    (read : parseStatement first rest = .ok (.instruction lead op operands)) :
    parseInstruction first rest = .ok (.instruction lead op operands) := by
  unfold parseStatement at read
  split at read
  · cases read
  · split at read
    · obtain ⟨items, impossible⟩ := parseData_data read
      cases impossible
    · exact read

theorem parseNamed?_instruction {first rest : List Char} {label : Option String} :
    parseNamed? first rest ≠ some (.ok ⟨label, .instruction lead op operands⟩) := by
  intro read
  unfold parseNamed? at read
  dsimp only at read
  split at read
  · cases read
  · split at read
    · cases read
    · split at read
      · split at read
        · obtain ⟨st, data, same⟩ := map_eq_ok.1 (Option.some.inj read)
          obtain ⟨items, rfl⟩ := parseData_data data
          cases same
        · cases read
      · cases read

/-- A line without a label is an instruction because its first word is a mnemonic. -/
theorem parseBody_instruction {label : Option String} {s : List Char}
    (read : parseBody label s = .ok ⟨none, .instruction lead op operands⟩) :
    label = none ∧ s ≠ [] ∧
      parseInstruction (splitWord s).1 (splitWord s).2 = .ok (.instruction lead op operands) := by
  unfold parseBody at read
  split at read
  · cases read
  · rename_i shown
    dsimp only at read
    split at read
    · rename_i line named
      split at named
      · rw [read] at named
        exact absurd named parseNamed?_instruction
      · cases named
    · obtain ⟨st, stated, same⟩ := map_eq_ok.1 read
      cases same
      exact ⟨rfl, by simpa using shown, parseStatement_instruction stated⟩

theorem splitLabel_none {s : List Char} (unlabelled : (splitLabel s).1 = none) :
    splitLabel s = (none, s) := by
  cases cut : cutAt? ':' s with
  | none => simp only [splitLabel, cut]
  | some parts =>
      simp only [splitLabel, cut] at unlabelled ⊢
      split at unlabelled
      · cases unlabelled
      · rename_i unnamed
        rw [if_neg unnamed]

theorem parse_instruction {s : List Char}
    (read : Line.parse s = .ok ⟨none, .instruction lead op operands⟩) :
    let body := trim (stripComment s)
    body ≠ [] ∧ parseInstruction (splitWord body).1 (splitWord body).2 =
      .ok (.instruction lead op operands) := by
  have whole : parseBody (splitLabel (trim (stripComment s))).1
      (splitLabel (trim (stripComment s))).2 = .ok ⟨none, .instruction lead op operands⟩ := read
  obtain ⟨unlabelled, shown, first⟩ := parseBody_instruction whole
  rw [splitLabel_none unlabelled] at shown first
  exact ⟨shown, first⟩

/-! ## One more lead -/

/-- A mnemonic in second place leaves the line to its first word. -/
theorem parseNamed?_mnemonic {first rest : List Char} {op : Operation}
    (lookup : Operation.ofMnemonic? (splitWord rest).1 = some op) :
    parseNamed? first rest = none := by
  have keyword := keyword_of_lookup lookup
  have start : isKeyword "SEGMENT" (splitWord rest).1 = false := keyword _ (by decide)
  have finish : isKeyword "ENDS" (splitWord rest).1 = false := keyword _ (by decide)
  have bytes : isKeyword "DB" (splitWord rest).1 = false := keyword _ (by decide)
  have words : isKeyword "DW" (splitWord rest).1 = false := keyword _ (by decide)
  simp [parseNamed?, dataWidth?, start, finish, bytes, words]

/-- A line whose first word is a mnemonic does not start with a colon. -/
theorem head_of_lookup {body : List Char} (tight : Tight body) (shown : body ≠ [])
    (lookup : Operation.ofMnemonic? (splitWord body).1 = some op) :
    ∃ c tail, body = c :: tail ∧ isBlank c = false ∧ c ≠ ':' := by
  obtain ⟨c, tail, rfl⟩ := List.exists_cons_of_ne_nil shown
  have first : isBlank c = false := tight.start c rfl
  have member : c ∈ (splitWord (c :: tail)).1 := by simp [splitWord_tight tight, first]
  have colon : ':' ∉ (splitWord (c :: tail)).1 := (worded_of_lookup lookup).not_mem (by decide)
  exact ⟨c, tail, rfl, first, fun same => colon (same ▸ member)⟩

variable {p : Operation} {word gap body : List Char}

theorem splitLabel_led (lookup : Operation.ofMnemonic? word = some p) (apart : gap ≠ [])
    (blank : allBlank gap = true) (tight : Tight body) (shown : body ≠ [])
    (inner : Operation.ofMnemonic? (splitWord body).1 = some op) :
    splitLabel (word ++ (gap ++ body)) = (none, word ++ (gap ++ body)) := by
  have worded := worded_of_lookup lookup
  have blanks : ∀ c ∈ gap, isBlank c = true := List.all_eq_true.1 blank
  obtain ⟨c, tail, rfl, first, colon⟩ := head_of_lookup tight shown inner
  obtain ⟨b, others, rfl⟩ := List.exists_cons_of_ne_nil apart
  have single : Solid [c] := fun d member => by rwa [List.mem_singleton.1 member]
  have front : Tight (word ++ (b :: others ++ [c])) :=
    worded.solid.tight.around single.tight worded.nonempty (by simp) _
  have absent : ':' ∉ word ++ (b :: others ++ [c]) := by
    rw [List.mem_append, List.mem_append, List.mem_singleton]
    rintro (letter | space | rfl)
    · exact worded.not_mem (by decide) letter
    · exact (plain_of_isBlank (blanks _ space)).2.2 rfl
    · exact colon rfl
  have split : word ++ (b :: others ++ c :: tail) = word ++ (b :: others ++ [c]) ++ tail := by simp
  rw [split]
  exact splitLabel_spaced front (b := b) (by simp) (blanks b (by simp)) absent tail

theorem parseBody_led (lookup : Operation.ofMnemonic? word = some p) (leads : isLead p = true)
    (apart : gap ≠ []) (blank : allBlank gap = true) (tight : Tight body) (shown : body ≠ [])
    (inner : parseInstruction (splitWord body).1 (splitWord body).2 =
      .ok (.instruction lead op operands)) :
    parseBody none (word ++ (gap ++ body)) =
      .ok ⟨none, .instruction (some p) op operands⟩ := by
  have worded := worded_of_lookup lookup
  have present : (word ++ (gap ++ body)).isEmpty = false := by simp [shown]
  have cut : splitWord (word ++ (gap ++ body)) = (word, body) :=
    splitWord_gap worded.solid worded.nonempty apart blank tight shown
  have read : parseInstruction word body = .ok (.instruction (some p) op operands) := by
    rw [parseInstruction, lookup]
    simp only [leads, shown, ne_eq, not_false_eq_true, and_self, ↓reduceDIte, inner]
    rfl
  obtain ⟨_, found⟩ := parseInstruction_lookup inner
  simp only [parseBody, present, cut, Bool.false_eq_true, ↓reduceIte, Option.isNone_none,
    parseNamed?_mnemonic found, parseStatement_mnemonic lookup, read]
  rfl

/-- A line is read from its second word on, and its lead replaces the one found there. -/
theorem parse_led {s : List Char} (lookup : Operation.ofMnemonic? word = some p)
    (leads : isLead p = true) (apart : gap ≠ []) (blank : allBlank gap = true)
    (read : Line.parse s = .ok ⟨none, .instruction lead op operands⟩) :
    Line.parse (word ++ (gap ++ s)) = .ok ⟨none, .instruction (some p) op operands⟩ := by
  have worded := worded_of_lookup lookup
  obtain ⟨shown, inner⟩ := parse_instruction read
  obtain ⟨_, found⟩ := parseInstruction_lookup inner
  -- The blanks that the rest of the line starts with belong to the gap.
  obtain ⟨front, back, blankFront, blankBack, parts⟩ := trim_parts (stripComment s)
  have tight := tight_trim (stripComment s)
  have wider : allBlank (gap ++ front) = true := by
    rw [allBlank, List.all_append]
    exact Bool.and_eq_true_iff.2 ⟨blank, blankFront⟩
  have apart' : gap ++ front ≠ [] := List.append_ne_nil_of_left_ne_nil apart front
  have code : stripComment (word ++ (gap ++ s)) =
      word ++ ((gap ++ front) ++ trim (stripComment s)) ++ back := by
    rw [stripComment_append worded.plain, stripComment_append fun c member =>
      have plain := plain_of_isBlank (List.all_eq_true.1 blank c member)
      ⟨plain.1, plain.2.1⟩]
    conv_lhs => rw [parts]
    simp
  have whole : Tight (word ++ ((gap ++ front) ++ trim (stripComment s))) :=
    worded.solid.tight.around tight worded.nonempty shown _
  rw [Line.parse, code, trim_append_blank whole (by simp [shown]) blankBack,
    splitLabel_led lookup apart' wider tight shown found]
  exact parseBody_led lookup leads apart' wider tight shown inner

/-- **Of several leads the first is kept.** -/
theorem Leads.parse_append {ops : List Operation} {text s : List Char} (leads : Leads ops text)
    (read : Line.parse s = .ok ⟨none, .instruction lead op operands⟩) :
    Line.parse (text ++ s) = .ok ⟨none, .instruction (ops.head?.or lead) op operands⟩ := by
  induction leads with
  | nil => simpa using read
  | cons lookup leads apart blank rest ih =>
      rw [List.append_assoc, List.append_assoc]
      exact parse_led lookup leads apart blank ih

end Asm86.Source
