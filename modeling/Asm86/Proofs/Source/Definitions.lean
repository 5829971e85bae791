/-
# Asm86.Proofs.Source.Definitions -- the gap before EQU

A line that defines a constant with EQU has two gaps, and they are read by different rules.  The one
behind EQU belongs to the value, which is trimmed; the one before it has to be a single blank, as the
words of the line are cut at the first two blanks.  So `NAME EQU value` is a definition when one blank
or tab stands before EQU, whatever stands behind it, and plain text when there are more
(`Equate.definition?_line`).

What a source defines is collected line by line (`collect`).  A name keeps its value to the end
(`expandLines_append`), so that a definition shows in all lines below it (`equate_wants_one_blank`).
-/
import Asm86.Proofs.Source.Expansion
import Asm86.Proofs.Source.Gaps
import Asm86.Proofs.Source.Substitution
import Asm86.Proofs.Source.Sums

namespace Asm86.Source.Constants

open Asm86.Text
open Asm86.Checked

set_option autoImplicit false

/-! ## What lines define -/

/-- The constants after some lines, from those before them. -/
def collect (defs : Constants) : List (List Char) → Constants
  | [] => defs
  | raw :: rest =>
      match definition? (bare raw) with
      | some (name, value) => collect ((name, defs.substitute value) :: defs) rest
      | none => collect defs rest

theorem collect_append (defs : Constants) (before rest : List (List Char)) :
    defs.collect (before ++ rest) = (defs.collect before).collect rest := by
  induction before generalizing defs with
  | nil => rfl
  | cons raw before ih =>
      rw [List.cons_append, collect, collect]
      split
      · exact ih _
      · exact ih _

variable {defs defs' : Constants}

theorem Takes.collect_cons {raw line : List Char} (takes : Takes defs raw line defs')
    (rest : List (List Char)) : defs.collect (raw :: rest) = defs'.collect rest := by
  cases takes with
  | text plain => simp only [collect, plain]
  | definition defines => simp only [collect, defines]

/-- A constant stays what it is. -/
theorem Takes.lookup {raw line name value : List Char} (takes : Takes defs raw line defs')
    (known : defs.lookup name = some value) : defs'.lookup name = some value := by
  cases takes with
  | text => exact known
  | @definition name' _ _ _ fresh =>
      have other : name ≠ name' := by
        rintro rfl
        exact fresh (lookup_isSome.1 (by rw [known]; rfl))
      rw [List.lookup_cons, beq_false_of_ne other]
      exact known

/-- **A source is expanded piece by piece.**  The lines behind a first piece are expanded by what it
defines, and what was defined before it stays. -/
theorem expandLines_append {number : Nat} {before rest expanded : List (List Char)}
    (done : defs.expandLines number (before ++ rest) = .ok expanded) :
    (∃ out out', expanded = out ++ out' ∧ out.length = before.length ∧
      (defs.collect before).expandLines (number + before.length) rest = .ok out') ∧
    (Valued defs → (∀ raw ∈ before, '\n' ∉ raw) → Valued (defs.collect before)) ∧
    ∀ name value, defs.lookup name = some value → (defs.collect before).lookup name = some value := by
  induction before generalizing defs number expanded with
  | nil => exact ⟨⟨[], expanded, rfl, rfl, done⟩, fun valued _ => valued, fun _ _ known => known⟩
  | cons raw before ih =>
      rcases expandLines_cons defs number raw with ⟨line, defs', takes, step⟩ | ⟨e, -, stop⟩
      · rw [List.cons_append, step] at done
        obtain ⟨expanded', later, rfl⟩ := map_eq_ok.1 done
        obtain ⟨⟨out, out', rfl, length, ended⟩, valued, kept⟩ := ih later
        rw [takes.collect_cons]
        have place : number + (before.length + 1) = number + 1 + before.length := by omega
        refine ⟨⟨line :: out, out', rfl, ?_, ?_⟩, ?_, ?_⟩
        · rw [List.length_cons, List.length_cons, length]
        · rwa [List.length_cons, place]
        · intro values oneLine
          obtain ⟨first, others⟩ := List.forall_mem_cons.1 oneLine
          exact valued (takes.clean values first).1 others
        · exact fun name value known => kept name value (takes.lookup known)
      · rw [List.cons_append, stop] at done
        cases done

/-- Lines that define the same, and are the same where they define nothing, are expanded alike. -/
theorem expandLines_congr {number : Nat} {texts texts' : List (List Char)}
    (alike : List.Forall₂ (fun raw raw' => definition? (bare raw) = definition? (bare raw') ∧
      (definition? (bare raw) = none → bare raw = bare raw')) texts texts') :
    defs.expandLines number texts = defs.expandLines number texts' := by
  induction alike generalizing defs number with
  | nil => rfl
  | @cons raw raw' rest rest' first _ ih =>
      obtain ⟨same, plain⟩ := first
      unfold bare at same plain
      simp only [expandLines, ← same, ih]
      cases defines : definition? (trimEnd (stripComment raw)) with
      | none => simp only [plain defines]
      | some parts => rfl

/-! ## Lines with EQU -/

/-- The parts of a line `NAME EQU value`. -/
structure Equate where
  name : List Char
  gap : List Char
  keyword : List Char
  behind : List Char
  value : List Char
  named : Worded name
  apart : Gap gap
  spelled : isKeyword "EQU" keyword = true
  apart' : Gap behind
  plain : ∀ c ∈ value, (isQuote c = false ∧ c ≠ ';') ∧ c ≠ '='

namespace Equate

def line (e : Equate) : List Char := e.name ++ (e.gap ++ (e.keyword ++ (e.behind ++ e.value)))

/-- The same definition with single blanks. -/
def single (e : Equate) : Equate where
  name := e.name
  gap := [' ']
  keyword := e.keyword
  behind := [' ']
  value := e.value
  named := e.named
  apart := .of_all (by decide) (by decide)
  spelled := e.spelled
  apart' := .of_all (by decide) (by decide)
  plain := e.plain

variable (e : Equate)

theorem keyword_worded : Worded e.keyword := .of_isKeyword (by decide) (by decide) e.spelled

/-- Nothing in the line starts a quote, a comment or an assignment. -/
theorem plain_line : ∀ c ∈ e.line, (isQuote c = false ∧ c ≠ ';') ∧ c ≠ '=' := by
  have word : ∀ {w : List Char}, Worded w → ∀ c ∈ w, (isQuote c = false ∧ c ≠ ';') ∧ c ≠ '=' :=
    fun worded c member =>
      ⟨worded.plain c member, ne_of_mem_of_not_mem member (worded.not_mem (by decide))⟩
  have gap : ∀ {w : List Char}, Gap w → ∀ c ∈ w, (isQuote c = false ∧ c ≠ ';') ∧ c ≠ '=' :=
    fun gap c member =>
      have plain := plain_of_isBlank (isBlank_of_isSpace (gap.spaces c member))
      ⟨⟨plain.1, plain.2.1⟩, ne_of_mem_of_not_mem member (gap.not_mem (by decide))⟩
  intro c member
  simp only [line, List.mem_append] at member
  rcases member with inside | inside | inside | inside | inside
  · exact word e.named c inside
  · exact gap e.apart c inside
  · exact word e.keyword_worded c inside
  · exact gap e.apart' c inside
  · exact e.plain c inside

theorem trim_line :
    trim e.line = e.name ++ (e.gap ++ (e.keyword ++ trimEnd (e.behind ++ e.value))) := by
  have tight : Tight (e.name ++ (e.gap ++ e.keyword)) :=
    e.named.solid.tight.around e.keyword_worded.solid.tight e.named.nonempty
      e.keyword_worded.nonempty e.gap
  have shown : e.name ++ (e.gap ++ e.keyword) ≠ [] := by simp [e.named.nonempty]
  have front := trim_front tight shown (e.behind ++ e.value)
  simpa [line] using front

theorem trim_bare_line : trim (bare e.line) = trim e.line := by
  rw [bare, stripComment_plain fun c member => (e.plain_line c member).1, trim_trimEnd]

theorem assignment?_line : assignment? (trim e.line) = none := by
  have absent : '=' ∉ trim e.line := fun member => (e.plain_line _ (trim_subset _ member)).2 rfl
  rw [assignment?, cutAt?_of_not_mem absent]

/-- Behind the keyword comes a blank or the end of the line. -/
theorem takeWhile_keyword :
    (e.keyword ++ trimEnd (e.behind ++ e.value)).takeWhile (fun c => !isBlank c) = e.keyword ∧
      (e.keyword ++ trimEnd (e.behind ++ e.value)).dropWhile (fun c => !isBlank c) =
        trimEnd (e.behind ++ e.value) := by
  have shown : ∀ c ∈ e.keyword, (!isBlank c) = true := by
    intro c member
    rw [e.keyword_worded.solid c member]
    rfl
  obtain ⟨b, more, gap, blank⟩ := e.apart'.exists_cons
  rw [List.takeWhile_append_of_pos shown, List.dropWhile_append_of_pos shown, gap, List.cons_append,
    trimEnd_cons]
  split
  · exact ⟨List.append_nil _, rfl⟩
  · simp [blank]

/-- **One blank before EQU, any gap behind it.** -/
theorem definition?_line :
    definition? (bare e.line) = if e.gap.length = 1 then some (e.name, trim e.value) else none := by
  have shown : ∀ c ∈ e.name, (!isBlank c) = true := by
    intro c member
    rw [e.named.solid c member]
    rfl
  obtain ⟨b, more, gap, blank⟩ := e.apart.exists_cons
  have word : (e.name ++ (e.gap ++ (e.keyword ++ trimEnd (e.behind ++ e.value)))).takeWhile
      (fun c => !isBlank c) = e.name := by
    rw [List.takeWhile_append_of_pos shown, gap, List.cons_append, List.takeWhile_cons,
      blank]
    exact List.append_nil _
  have others : (e.name ++ (e.gap ++ (e.keyword ++ trimEnd (e.behind ++ e.value)))).dropWhile
      (fun c => !isBlank c) = b :: (more ++ (e.keyword ++ trimEnd (e.behind ++ e.value))) := by
    rw [List.dropWhile_append_of_pos shown, gap, List.cons_append, List.dropWhile_cons,
      blank]
    rfl
  rw [definition?, trim_bare_line, assignment?_line, Option.none_or, trim_line, equate?, word, others]
  simp only [gap]
  cases more with
  | nil =>
      have keyword := e.takeWhile_keyword
      rw [List.nil_append, keyword.1, if_pos e.spelled, keyword.2, trim_trimEnd,
        trim_append_left e.apart'.blank]
      rfl
  | cons b' more =>
      have blank' : isBlank b' = true := isBlank_of_isSpace (e.apart.spaces b' (by simp [gap]))
      have none : (b' :: more ++ (e.keyword ++ trimEnd (e.behind ++ e.value))).takeWhile
          (fun c => !isBlank c) = [] := by simp [blank']
      rw [none, if_neg (by decide), if_neg (by simp)]

end Equate

/-! ## Sources -/

/-- Every line of a source is taken by the constants that the lines above it define. -/
theorem expandLines_takes {number : Nat} {before after expanded : List (List Char)} {raw : List Char}
    (done : defs.expandLines number (before ++ raw :: after) = .ok expanded) :
    ∃ line defs', Takes (defs.collect before) raw line defs' ∧
      expanded[before.length]? = some line := by
  obtain ⟨⟨out, out', rfl, length, ended⟩, -⟩ := expandLines_append done
  rcases expandLines_cons (defs.collect before) (number + before.length) raw with
    ⟨line, defs', takes, step⟩ | ⟨e, -, stop⟩
  · rw [step] at ended
    obtain ⟨rest, -, rfl⟩ := map_eq_ok.1 ended
    exact ⟨line, defs', takes, by rw [← length, List.getElem?_append_right (Nat.le_refl _)]; simp⟩
  · rw [stop] at ended
    cases ended

theorem expandLines_text (defs : Constants) (number : Nat) {raw : List Char}
    (plain : definition? (bare raw) = none) (rest : List (List Char)) :
    defs.expandLines number (raw :: rest) =
      (defs.expandLines (number + 1) rest).map
        fun expanded => defs.substitute (bare raw) :: expanded := by
  rcases expandLines_cons defs number raw with ⟨line, defs', takes, step⟩ | ⟨e, refused, -⟩
  · rw [step]
    cases takes with
    | text => rfl
    | definition defines =>
        rw [plain] at defines
        cases defines
  · cases refused with
    | missingValue defines =>
        rw [plain] at defines
        cases defines
    | redefined defines =>
        rw [plain] at defines
        cases defines

theorem expandLines_definition (number : Nat) {raw name value : List Char}
    (defines : definition? (bare raw) = some (name, value)) (valued : value ≠ [])
    (fresh : name ∉ defs.map Prod.fst) (rest : List (List Char)) :
    defs.expandLines number (raw :: rest) =
      (Constants.expandLines ((name, defs.substitute value) :: defs) (number + 1) rest).map
        fun expanded => [] :: expanded := by
  have takes := Takes.definition defines valued fresh
  rcases expandLines_cons defs number raw with ⟨line, defs', takes', step⟩ | ⟨e, refused, -⟩
  · rw [step]
    cases takes' with
    | text plain =>
        rw [plain] at defines
        cases defines
    | definition defines' =>
        rw [defines] at defines'
        cases defines'
        rfl
  · exact absurd refused takes.not_refused

/-- A line of text that stands further down. -/
theorem expandLines_below {number : Nat} {before after expanded : List (List Char)}
    {line raw : List Char} {i : Nat}
    (done : defs.expandLines number (before ++ line :: after) = .ok expanded)
    (listed : after[i]? = some raw) (plain : definition? (bare raw) = none) :
    expanded[before.length + 1 + i]? =
      some ((defs.collect (before ++ line :: after.take i)).substitute (bare raw)) := by
  obtain ⟨inside, rfl⟩ := List.getElem?_eq_some_iff.1 listed
  have whole : before ++ line :: after =
      (before ++ line :: after.take i) ++ after[i] :: after.drop (i + 1) := by
    rw [List.append_assoc, List.cons_append, List.getElem_cons_drop, List.take_append_drop]
  have place : (before ++ line :: after.take i).length = before.length + 1 + i := by
    rw [List.length_append, List.length_cons, List.length_take, Nat.min_eq_left (Nat.le_of_lt inside)]
    omega
  rw [whole] at done
  obtain ⟨text, defs', takes, shown⟩ := expandLines_takes done
  rw [← place, shown]
  cases takes with
  | text => rfl
  | definition defines =>
      rw [plain] at defines
      cases defines

namespace Equate

variable (e : Equate)

theorem bare_line_ne_nil : bare e.line ≠ [] := by
  intro empty
  have trimmed := e.trim_bare_line
  rw [empty, trim_line] at trimmed
  exact e.named.nonempty (List.append_eq_nil_iff.1 trimmed.symm).1

theorem definition?_single (one : e.gap.length = 1) :
    definition? (bare e.line) = definition? (bare e.single.line) := by
  rw [definition?_line, definition?_line, if_pos one]
  rfl

/-- In a source, the line comes out empty exactly when it is a definition. -/
theorem empty_iff {number : Nat} {before after expanded : List (List Char)}
    (valued : Valued (defs.collect before)) (oneLine : '\n' ∉ e.line)
    (done : defs.expandLines number (before ++ e.line :: after) = .ok expanded) :
    expanded[before.length]? = some [] ↔ e.gap.length = 1 := by
  obtain ⟨line, defs', takes, shown⟩ := expandLines_takes done
  have defines := e.definition?_line
  rw [shown]
  cases takes with
  | text plain =>
      rw [plain] at defines
      have many : e.gap.length ≠ 1 := by
        intro one
        rw [if_pos one] at defines
        cases defines
      have written := (substitute_clean valued (clean_bare oneLine)).2 e.bare_line_ne_nil
      simp [many, written]
  | definition found =>
      rw [found] at defines
      split at defines
      · rename_i one
        simp [one]
      · cases defines

/-- The name stands for the value in all lines below. -/
theorem lookup_below (one : e.gap.length = 1) {number : Nat}
    {before after expanded : List (List Char)}
    (done : defs.expandLines number (before ++ e.line :: after) = .ok expanded) (i : Nat) :
    (defs.collect (before ++ e.line :: after.take i)).lookup e.name =
      some ((defs.collect before).substitute (trim e.value)) := by
  have defined : defs.collect (before ++ [e.line]) =
      (e.name, (defs.collect before).substitute (trim e.value)) :: defs.collect before := by
    rw [collect_append, collect, definition?_line, if_pos one]
    rfl
  rw [← List.singleton_append (l := after), ← List.append_assoc] at done
  obtain ⟨⟨-, out, -, -, later⟩, -⟩ := expandLines_append done
  rw [← List.take_append_drop i after] at later
  obtain ⟨-, -, kept⟩ := expandLines_append later
  rw [← List.singleton_append, ← List.append_assoc, collect_append]
  apply kept
  rw [defined, List.lookup_cons_self]

end Equate

/-- **EQU wants one blank before it.**  With one blank or tab before EQU and any gap behind it, a line
defines its name by its trimmed value: it comes out empty, the source is expanded as with single
blanks, and the name is replaced by the value in all lines below.  With more before EQU it is text. -/
theorem equate_wants_one_blank (e : Equate) :
    definition? (bare e.line) = (if e.gap.length = 1 then some (e.name, trim e.value) else none) ∧
    (∀ (defs : Constants) (number : Nat) (rest : List (List Char)),
      (e.gap.length = 1 → trim e.value ≠ [] → e.name ∉ defs.map Prod.fst →
        defs.expandLines number (e.line :: rest) =
          (Constants.expandLines ((e.name, defs.substitute (trim e.value)) :: defs) (number + 1)
            rest).map fun expanded => [] :: expanded) ∧
      (e.gap.length ≠ 1 → defs.expandLines number (e.line :: rest) =
        (defs.expandLines (number + 1) rest).map
          fun expanded => defs.substitute (bare e.line) :: expanded)) ∧
    ∀ (source : String) (before after : List (List Char)),
      lines source.toList = before ++ e.line :: after →
      (e.gap.length = 1 → ∀ source' : String,
        lines source'.toList = before ++ e.single.line :: after → expand source = expand source') ∧
      ∀ out : String, expand source = .ok out →
        ((lines out.toList)[before.length]? = some [] ↔ e.gap.length = 1) ∧
        (e.gap.length = 1 → ∀ (i : Nat) (raw : List Char) (stretches : List Stretch),
          after[i]? = some raw → definition? (bare raw) = none → Cut (bare raw) stretches →
          ∃ defs : Constants,
            (lines out.toList)[before.length + 1 + i]? =
              some (stretches.flatMap (Stretch.expanded defs)) ∧
            (e.name.head?.any Char.isDigit = false → (Stretch.word e.name).expanded defs =
              (Constants.collect [] before).substitute (trim e.value))) := by
  refine ⟨e.definition?_line, fun defs number rest => ⟨fun one valued fresh => ?_, fun many => ?_⟩,
    fun source before after whole => ⟨fun one source' whole' => ?_, fun out read => ?_⟩⟩
  · exact expandLines_definition number (by rw [e.definition?_line, if_pos one]) valued fresh rest
  · exact expandLines_text defs number (by rw [e.definition?_line, if_neg many]) rest
  · have alike : expandLines [] 1 (lines source.toList) = expandLines [] 1 (lines source'.toList) := by
      rw [whole, whole']
      apply expandLines_congr
      have same : ∀ texts : List (List Char), List.Forall₂ (fun raw raw' =>
          definition? (bare raw) = definition? (bare raw') ∧
            (definition? (bare raw) = none → bare raw = bare raw')) texts texts :=
        fun texts => List.forall₂_same.2 fun _ _ => ⟨rfl, fun _ => rfl⟩
      refine List.rel_append (same before) (.cons ⟨e.definition?_single one, ?_⟩ (same after))
      rw [e.definition?_line, if_pos one]
      intro impossible
      cases impossible
    rw [expand, expand, alike]
  · obtain ⟨expanded, done, rfl⟩ := expand_ok.1 read
    have written := (lines_expand done).1
    have oneLine : ∀ raw ∈ before ++ e.line :: after, '\n' ∉ raw :=
      fun raw member => feed_not_mem_lines (whole ▸ member)
    rw [String.toList_ofList, written]
    rw [whole] at done
    obtain ⟨-, valued, -⟩ := expandLines_append done
    constructor
    · have none : Valued [] := fun _ member => absurd member List.not_mem_nil
      refine e.empty_iff (valued none fun raw member => ?_) ?_ done
      · exact oneLine raw (List.mem_append_left _ member)
      · exact oneLine _ (by simp)
    · intro one i raw stretches listed plain cut
      refine ⟨Constants.collect [] (before ++ e.line :: after.take i), ?_, fun named => ?_⟩
      · rw [← cut.substitute_eq]
        exact expandLines_below done listed plain
      · rw [Stretch.expanded, named, e.lookup_below one done i]
        rfl

/-- A tab before EQU and three blanks behind it. -/
theorem equate_wants_one_blank_port :
    expand "PORT\tEQU   60h\n inb PORT" = .ok "\n inb 60h\n" ∧
      expand "PORT\tEQU   60h\n inb PORT" = expand "PORT EQU 60h\n inb PORT" ∧
      (lines "\n inb 60h\n".toList)[0]? = some [] := by
  have done : expand "PORT\tEQU   60h\n inb PORT" = .ok "\n inb 60h\n" := by decide +kernel
  let port : Equate :=
    { name := "PORT".toList, gap := "\t".toList, keyword := "EQU".toList, behind := "   ".toList,
      value := "60h".toList, named := .of_all (by decide) (by decide),
      apart := .of_all (by decide) (by decide), spelled := by decide,
      apart' := .of_all (by decide) (by decide),
      plain := by simp [isQuote] }
  have whole : lines "PORT\tEQU   60h\n inb PORT".toList =
      [] ++ port.line :: [" inb PORT".toList] := by
    decide +kernel
  have whole' : lines "PORT EQU 60h\n inb PORT".toList =
      [] ++ port.single.line :: [" inb PORT".toList] := by
    decide +kernel
  obtain ⟨-, -, sources⟩ := equate_wants_one_blank port
  obtain ⟨same, written⟩ := sources _ _ _ whole
  exact ⟨done, same rfl _ whole', (written _ done).1.2 rfl⟩

/-- A second blank before EQU makes the definition a line of text. -/
theorem two_blanks_before_equ :
    expand "PORT  EQU 60h\n  inb PORT\n" = .ok "PORT  EQU 60h\n  inb PORT\n" ∧
      expand "PORT EQU 60h\n  inb PORT\n" = .ok "\n  inb 60h\n" := by
  decide +kernel

end Asm86.Source.Constants
