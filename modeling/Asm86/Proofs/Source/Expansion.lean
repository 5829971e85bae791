/-
# Asm86.Proofs.Source.Expansion -- expanding constants keeps the lines of a source

Expansion takes one line after the other.  It either takes a line, which gives a line of the
result and perhaps a constant (`Takes`), or refuses it (`Refused`); `expandLines_cons` says so
once, and everything else is by induction from that.

* Values are never empty and end in no blank, so replacing names in a line keeps it one line
  that ends in no blank, whatever the values hold (`substitute_clean`).  The lines of the result
  are therefore read again as what they were written as (`lines_expand`).
* The constants known at a line are those that the lines above it define, so the line at which
  expansion stops is the first one with a fault.

`expand_keeps_lines` puts these together.
-/
import Asm86.Proofs.Checked
import Asm86.Proofs.Text.Lines
import Asm86.Source.Constants

namespace Asm86.Source.Constants

open Asm86.Checked
open Asm86.Text

set_option autoImplicit false

/-- One line that ends in no blank. -/
structure Clean (s : List Char) : Prop where
  oneLine : '\n' ∉ s
  ended : Ended s

theorem clean_nil : Clean [] := ⟨List.not_mem_nil, fun _ last => nomatch last⟩

theorem clean_bare {raw : List Char} (oneLine : '\n' ∉ raw) : Clean (bare raw) where
  oneLine := fun member => oneLine ((bare_isPrefix raw).subset member)
  ended := ended_trimEnd _

/-- Values that may stand in for names. -/
def Valued (defs : Constants) : Prop := ∀ entry ∈ defs, entry.2 ≠ [] ∧ Clean entry.2

variable {defs defs' : Constants}

/-! ## Replacing names -/

/-- A word is kept or replaced by its value. -/
theorem expandWord_eq (defs : Constants) (word : List Char) :
    defs.expandWord word = word ∨ (word, defs.expandWord word) ∈ defs := by
  cases word with
  | nil => exact .inl rfl
  | cons c rest =>
      rw [expandWord]
      split
      · exact .inl rfl
      · cases found : defs.lookup (c :: rest) with
        | none => exact .inl rfl
        | some value =>
            obtain ⟨front, back, rfl, -⟩ := List.lookup_eq_some_iff.1 found
            exact .inr (List.mem_append_right _ (List.mem_cons_self ..))

/-- All characters come from the text or from a value. -/
theorem mem_substituteFrom {quote : Option Char} {word text : List Char} {c : Char}
    (member : c ∈ defs.substituteFrom quote word text) :
    c ∈ word ++ text ∨ ∃ entry ∈ defs, c ∈ entry.2 := by
  have ofWord : ∀ word, c ∈ defs.expandWord word → c ∈ word ∨ ∃ entry ∈ defs, c ∈ entry.2 := by
    intro word member
    rcases expandWord_eq defs word with same | known
    · exact .inl (same ▸ member)
    · exact .inr ⟨_, known, member⟩
  induction text generalizing quote word with
  | nil =>
      rw [List.append_nil]
      exact ofWord word member
  | cons d rest ih =>
      rw [substituteFrom] at member
      split at member
      · simpa using ih member
      · rcases List.mem_append.1 member with before | after
        · exact (ofWord word before).imp_left (List.mem_append_left _)
        · rcases List.mem_cons.1 after with rfl | after
          · exact .inl (by simp)
          · exact (ih after).imp_left fun later =>
              List.mem_append_right _ (List.mem_cons_of_mem _ later)

/-- What ends in no blank still does, and something stays something. -/
theorem substituteFrom_ended (valued : Valued defs) (quote : Option Char) (word : List Char)
    {text : List Char} (ended : Ended (word ++ text)) :
    Ended (defs.substituteFrom quote word text) ∧
      (word ++ text ≠ [] → defs.substituteFrom quote word text ≠ []) := by
  induction text generalizing quote word with
  | nil =>
      rw [List.append_nil] at ended ⊢
      rw [substituteFrom]
      rcases expandWord_eq defs word with same | known
      · rw [same]
        exact ⟨ended, id⟩
      · obtain ⟨nonempty, clean⟩ := valued _ known
        exact ⟨clean.ended, fun _ => nonempty⟩
  | cons c rest ih =>
      rw [substituteFrom]
      split
      · have whole : word ++ c :: rest = word ++ [c] ++ rest := by simp
        rw [whole] at ended ⊢
        exact ih none (word ++ [c]) ended
      · refine ⟨(ended_append (List.cons_ne_nil _ _)).2 ?_, fun _ => by simp⟩
        have tail : Ended (c :: rest) := (ended_append (List.cons_ne_nil _ _)).1 ended
        cases rest with
        | nil => exact tail
        | cons d rest =>
            have later : Ended (d :: rest) := (ended_append (s := [c]) (List.cons_ne_nil _ _)).1 tail
            obtain ⟨ended', nonempty⟩ := ih (quoteAfter isQuote quote c) [] later
            exact (ended_append (s := [c]) (nonempty (List.cons_ne_nil _ _))).2 ended'

theorem substitute_clean (valued : Valued defs) {line : List Char} (clean : Clean line) :
    Clean (defs.substitute line) ∧ (line ≠ [] → defs.substitute line ≠ []) := by
  obtain ⟨ended, nonempty⟩ := substituteFrom_ended valued none [] clean.ended
  refine ⟨⟨fun member => ?_, ended⟩, nonempty⟩
  rcases mem_substituteFrom member with own | ⟨entry, known, foreign⟩
  · exact clean.oneLine own
  · exact (valued entry known).2.oneLine foreign

/-! ## One line -/

theorem trim_subset (s : List Char) : trim s ⊆ s :=
  fun _ member => (List.dropWhile_suffix _).subset (trimEnd_subset _ member)

/-- A value is a part of its line, without the blanks around it. -/
theorem definition?_value {line name value : List Char}
    (defines : definition? line = some (name, value)) : value ⊆ line ∧ Ended value := by
  have part : ∃ s, s ⊆ trim line ∧ value = trim s := by
    rcases Option.or_eq_some_iff.1 defines with assigned | ⟨-, equated⟩
    · simp only [assignment?] at assigned
      split at assigned
      · rename_i before after cut
        split at assigned
        · cases assigned
          refine ⟨after, ?_, rfl⟩
          rw [eq_append_of_cutAt? cut]
          exact fun c member => List.mem_append_right _ (List.mem_cons_of_mem _ member)
        · cases assigned
      · cases assigned
    · rw [equate?] at equated
      split at equated
      · cases equated
      · rename_i blank rest found
        split at equated
        · cases equated
          refine ⟨_, fun c member => ?_, rfl⟩
          have later : c ∈ (trim line).dropWhile fun c => !isBlank c := by
            rw [found]
            exact List.mem_cons_of_mem _ ((List.dropWhile_suffix _).subset member)
          exact (List.dropWhile_suffix _).subset later
        · cases equated
  obtain ⟨s, within, rfl⟩ := part
  exact ⟨fun c member => trim_subset line (within (trim_subset s member)), (tight_trim s).stop⟩

/-- A line is taken: the line that it gives, and the constants known below it. -/
inductive Takes (defs : Constants) (raw : List Char) : List Char → Constants → Prop
  | text (plain : definition? (bare raw) = none) : Takes defs raw (defs.substitute (bare raw)) defs
  | definition {name value : List Char} (defines : definition? (bare raw) = some (name, value))
      (valued : value ≠ []) (fresh : name ∉ defs.map Prod.fst) :
      Takes defs raw [] ((name, defs.substitute value) :: defs)

/-- A line is refused where the names in `known` are defined already: how that is reported. -/
inductive Refused (known : List (List Char)) (number : Nat) (raw : List Char) : ConstantError → Prop
  | missingValue {name : List Char} (defines : definition? (bare raw) = some (name, [])) :
      Refused known number raw (.missingValue (String.ofList name) number)
  | redefined {name value : List Char} (defines : definition? (bare raw) = some (name, value))
      (valued : value ≠ []) (again : name ∈ known) :
      Refused known number raw (.redefined (String.ofList name) number)

theorem lookup_isSome {name : List Char} :
    (defs.lookup name).isSome = true ↔ name ∈ defs.map Prod.fst := by
  rw [List.lookup_isSome_iff, List.mem_map]
  simp only [beq_iff_eq, eq_comm (a := name)]

/-- **One step.**  Whatever follows, the first line is taken and the others are expanded below
it, or it is refused. -/
theorem expandLines_cons (defs : Constants) (number : Nat) (raw : List Char) :
    (∃ line defs', Takes defs raw line defs' ∧
      ∀ rest, defs.expandLines number (raw :: rest) =
        (defs'.expandLines (number + 1) rest).map fun expanded => line :: expanded) ∨
    ∃ e, Refused (defs.map Prod.fst) number raw e ∧
      ∀ rest, defs.expandLines number (raw :: rest) = .error e := by
  have own : trimEnd (stripComment raw) = bare raw := rfl
  cases defines : definition? (bare raw) with
  | none =>
      refine .inl ⟨_, _, .text defines, fun rest => ?_⟩
      simp only [expandLines, own, defines]
      rfl
  | some entry =>
      obtain ⟨name, value⟩ := entry
      by_cases empty : value.isEmpty = true
      · cases List.isEmpty_iff.1 empty
        refine .inr ⟨_, .missingValue defines, fun rest => ?_⟩
        simp only [expandLines, own, defines]
        rfl
      · have valued : value ≠ [] := fun nil => empty (List.isEmpty_iff.2 nil)
        by_cases known : (defs.lookup name).isSome = true
        · refine .inr ⟨_, .redefined defines valued (lookup_isSome.1 known), fun rest => ?_⟩
          simp only [expandLines, own, defines, empty, known]
          rfl
        · refine .inl ⟨_, _, .definition defines valued fun again => known (lookup_isSome.2 again),
            fun rest => ?_⟩
          simp only [expandLines, own, defines, empty, known]
          rfl

/-- A line that is taken gives one clean line, and none of a definition. -/
theorem Takes.clean {raw line : List Char} (takes : Takes defs raw line defs')
    (valued : Valued defs) (oneLine : '\n' ∉ raw) :
    Valued defs' ∧ Clean line ∧ ((definition? (bare raw)).isSome = true → line = []) := by
  cases takes with
  | text plain => exact ⟨valued, (substitute_clean valued (clean_bare oneLine)).1, by simp [plain]⟩
  | definition defines nonempty _ =>
      obtain ⟨within, ended⟩ := definition?_value defines
      have value : Clean _ := ⟨fun member => (clean_bare oneLine).oneLine (within member), ended⟩
      obtain ⟨clean, stays⟩ := substitute_clean valued value
      exact ⟨List.forall_mem_cons.2 ⟨⟨stays nonempty, clean⟩, valued⟩, clean_nil, fun _ => rfl⟩

/-! ## All lines -/

/-- Each line gives a clean one, and a definition an empty one. -/
theorem expandLines_clean {number : Nat} {texts expanded : List (List Char)} (valued : Valued defs)
    (oneLine : ∀ raw ∈ texts, '\n' ∉ raw) (done : defs.expandLines number texts = .ok expanded) :
    List.Forall₂
      (fun raw line => Clean line ∧ ((definition? (bare raw)).isSome = true → line = []))
      texts expanded := by
  induction texts generalizing defs number expanded with
  | nil =>
      cases done
      exact .nil
  | cons raw rest ih =>
      obtain ⟨first, others⟩ := List.forall_mem_cons.1 oneLine
      rcases expandLines_cons defs number raw with ⟨line, defs', takes, step⟩ | ⟨e, -, failed⟩
      · obtain ⟨below, expanded, rfl⟩ := map_eq_ok.1 ((step rest).symm.trans done)
        obtain ⟨valued', clean, blank⟩ := takes.clean valued first
        exact .cons ⟨clean, blank⟩ (ih valued' others expanded)
      · cases (failed rest).symm.trans done

/-- What comes later changes nothing above it. -/
theorem expandLines_take {number : Nat} {texts expanded : List (List Char)}
    (done : defs.expandLines number texts = .ok expanded) (i : Nat) :
    defs.expandLines number (texts.take i) = .ok (expanded.take i) := by
  induction texts generalizing defs number expanded i with
  | nil =>
      cases done
      rw [List.take_nil]
      rfl
  | cons raw rest ih =>
      cases i with
      | zero => rfl
      | succ i =>
          rcases expandLines_cons defs number raw with ⟨line, defs', -, step⟩ | ⟨e, -, failed⟩
          · obtain ⟨below, expanded, rfl⟩ := map_eq_ok.1 ((step rest).symm.trans done)
            rw [List.take_succ_cons, step, ih expanded]
            rfl
          · cases (failed rest).symm.trans done

/-! ## Faults -/

/-- The names that these lines define. -/
def definedNames (texts : List (List Char)) : List (List Char) :=
  texts.filterMap fun raw => (definition? (bare raw)).map Prod.fst

/-- The line with this index has no value, or defines a name that a line above it defines; and
how that is reported. -/
def FaultAt (texts : List (List Char)) (n : Nat) (e : ConstantError) : Prop :=
  ∃ raw, texts[n]? = some raw ∧ Refused (definedNames (texts.take n)) (n + 1) raw e

theorem Takes.names {raw line : List Char} (takes : Takes defs raw line defs')
    {before : List (List Char)} (known : defs.map Prod.fst = (definedNames before).reverse) :
    defs'.map Prod.fst = (definedNames (before ++ [raw])).reverse := by
  rw [definedNames, List.filterMap_append, ← definedNames]
  cases takes with
  | text plain => simp [plain, known]
  | definition defines _ _ => simp [defines, known]

/-- A line is not both taken and refused. -/
theorem Takes.not_refused {raw line : List Char} (takes : Takes defs raw line defs')
    {number : Nat} {e : ConstantError} : ¬ Refused (defs.map Prod.fst) number raw e := by
  intro refused
  cases takes with
  | text plain =>
      cases refused with
      | missingValue defines => cases plain.symm.trans defines
      | redefined defines => cases plain.symm.trans defines
  | definition defined valued fresh =>
      cases refused with
      | missingValue defines =>
          cases defined.symm.trans defines
          exact valued rfl
      | redefined defines _ again =>
          cases defined.symm.trans defines
          exact fresh again

/-- Which names are known matters, not their order. -/
theorem Refused.mono {known known' : List (List Char)} {number : Nat} {raw : List Char}
    {e : ConstantError} (refused : Refused known number raw e) (more : known ⊆ known') :
    Refused known' number raw e := by
  cases refused with
  | missingValue defines => exact .missingValue defines
  | redefined defines valued again => exact .redefined defines valued (more again)

theorem faultAt_iff {before rest : List (List Char)} {raw : List Char} {e : ConstantError}
    (known : defs.map Prod.fst = (definedNames before).reverse) :
    FaultAt (before ++ raw :: rest) before.length e ↔
      Refused (defs.map Prod.fst) (before.length + 1) raw e := by
  rw [known]
  constructor
  · rintro ⟨raw', there, refused⟩
    rw [List.getElem?_append_right (Nat.le_refl _), Nat.sub_self] at there
    cases there
    rw [List.take_left] at refused
    exact refused.mono fun _ => List.mem_reverse.2
  · intro refused
    refine ⟨raw, by simp, ?_⟩
    rw [List.take_left]
    exact refused.mono fun _ => List.mem_reverse.1

/-- **The first fault is reported, and any fault is.** -/
theorem expandLines_faults (defs : Constants) (before texts : List (List Char))
    (known : defs.map Prod.fst = (definedNames before).reverse)
    (sound : ∀ m < before.length, ∀ e, ¬ FaultAt (before ++ texts) m e) :
    (∀ e, defs.expandLines (before.length + 1) texts = .error e →
      ∃ n, FaultAt (before ++ texts) n e ∧ ∀ m < n, ∀ e', ¬ FaultAt (before ++ texts) m e') ∧
    ∀ expanded, defs.expandLines (before.length + 1) texts = .ok expanded →
      ∀ n e, ¬ FaultAt (before ++ texts) n e := by
  -- The lines above move from `texts` to `before`; none of them has a fault, and the constants
  -- are those that they define.
  induction texts generalizing defs before with
  | nil =>
      refine ⟨fun e failed => (nomatch failed), fun expanded _ n e fault => ?_⟩
      obtain ⟨raw, there, refused⟩ := fault
      have inside : n < before.length := by
        rw [List.append_nil] at there
        exact (List.getElem?_eq_some_iff.1 there).1
      exact sound n inside e ⟨raw, there, refused⟩
  | cons raw rest ih =>
      have whole : before ++ raw :: rest = before ++ [raw] ++ rest := by simp
      rcases expandLines_cons defs (before.length + 1) raw with
        ⟨line, defs', takes, step⟩ | ⟨e, refused, failed⟩
      · have sound' : ∀ m < (before ++ [raw]).length, ∀ e,
            ¬ FaultAt (before ++ [raw] ++ rest) m e := by
          intro m inside e
          rw [← whole]
          rcases Nat.lt_or_eq_of_le (Nat.lt_succ_iff.1 (by simpa using inside)) with above | rfl
          · exact sound m above e
          · exact fun fault => takes.not_refused ((faultAt_iff known).1 fault)
        obtain ⟨first, none⟩ := ih defs' (before ++ [raw]) (takes.names known) sound'
        rw [List.length_append] at first none
        rw [whole, step]
        refine ⟨fun e failed => first e (map_eq_error.1 failed), fun expanded done => ?_⟩
        obtain ⟨below, run, -⟩ := map_eq_ok.1 done
        exact none below run
      · refine ⟨fun e' failed' => ?_, fun expanded done => ?_⟩
        · cases (failed rest).symm.trans failed'
          exact ⟨before.length, (faultAt_iff known).2 refused, sound⟩
        · cases (failed rest).symm.trans done

/-! ## Whole sources -/

theorem expand_ok {source out : String} :
    expand source = .ok out ↔ ∃ expanded, expandLines [] 1 (lines source.toList) = .ok expanded ∧
      out = String.ofList (expanded.flatMap fun line => line ++ ['\n']) := by
  rw [expand, bind_eq_ok]
  simp only [pure, Except.pure, Except.ok.injEq, eq_comm]

theorem expand_error {source : String} {e : ConstantError} :
    expand source = .error e ↔ expandLines [] 1 (lines source.toList) = .error e := by
  unfold expand
  cases expandLines [] 1 (lines source.toList) <;> simp [bind, Except.bind, pure, Except.pure]

theorem Clean.readable {line : List Char} (clean : Clean line) :
    '\n' ∉ line ∧ line.getLast? ≠ some '\r' :=
  ⟨clean.oneLine, fun last => absurd (clean.ended _ last) (by decide)⟩

/-- The lines of the result are those that were written, one for each line of the source. -/
theorem lines_expand {source : String} {expanded : List (List Char)}
    (done : expandLines [] 1 (lines source.toList) = .ok expanded) :
    lines (expanded.flatMap fun line => line ++ ['\n']) = expanded ∧
      List.Forall₂
        (fun raw line => Clean line ∧ ((definition? (bare raw)).isSome = true → line = []))
        (lines source.toList) expanded := by
  have each := expandLines_clean (fun _ known => absurd known List.not_mem_nil)
    (fun _ known => feed_not_mem_lines known) done
  refine ⟨lines_unlines fun line known => ?_, each⟩
  obtain ⟨raw, -, clean, -⟩ := exists_of_mem_right each known
  exact clean.readable

/-- Without constants nothing is replaced. -/
theorem substitute_nil (line : List Char) : Constants.substitute [] line = line := by
  have word : ∀ word, Constants.expandWord [] word = word := fun word =>
    (expandWord_eq [] word).resolve_right List.not_mem_nil
  have all : ∀ quote word text, Constants.substituteFrom [] quote word text = word ++ text := by
    intro quote word' text
    induction text generalizing quote word' with
    | nil => rw [substituteFrom, word, List.append_nil]
    | cons c rest ih =>
        rw [substituteFrom]
        split
        · rw [ih, List.append_assoc, List.singleton_append]
        · rw [word, ih, List.nil_append]
  exact all none [] line

theorem expandLines_plain (number : Nat) {texts : List (List Char)}
    (plain : ∀ raw ∈ texts, definition? (bare raw) = none) :
    Constants.expandLines [] number texts = .ok (texts.map bare) := by
  induction texts generalizing number with
  | nil => rfl
  | cons raw rest ih =>
      obtain ⟨first, others⟩ := List.forall_mem_cons.1 plain
      rcases expandLines_cons [] number raw with ⟨line, defs', takes, step⟩ | ⟨e, refused, -⟩
      · rw [step]
        cases takes with
        | text =>
            rw [ih (number + 1) others, substitute_nil]
            rfl
        | definition defines => cases first.symm.trans defines
      · cases refused with
        | missingValue defines => cases first.symm.trans defines
        | redefined defines => cases first.symm.trans defines

/-- A source that defines no constants loses its comments and the blanks at the ends of its
lines, and has nothing more to lose then. -/
theorem expand_plain {source : String}
    (plain : ∀ raw ∈ lines source.toList, definition? (bare raw) = none) :
    ∃ out, expand source = .ok out ∧ expand out = .ok out ∧
      lines out.toList = (lines source.toList).map bare := by
  have done := expandLines_plain 1 plain
  obtain ⟨out, written⟩ : ∃ out, out = String.ofList
      (((lines source.toList).map bare).flatMap fun line => line ++ ['\n']) := ⟨_, rfl⟩
  have read : lines out.toList = (lines source.toList).map bare := by
    rw [written, String.toList_ofList]
    exact (lines_expand done).1
  have same : (lines out.toList).map bare = (lines source.toList).map bare := by
    rw [read, List.map_map]
    exact List.map_congr_left fun raw _ => bare_bare raw
  have plain' : ∀ line ∈ lines out.toList, definition? (bare line) = none := by
    intro line known
    rw [read] at known
    obtain ⟨raw, there, rfl⟩ := List.mem_map.1 known
    rw [bare_bare]
    exact plain raw there
  have done' := expandLines_plain 1 plain'
  rw [same] at done'
  exact ⟨out, expand_ok.2 ⟨_, done, written⟩, expand_ok.2 ⟨_, done', written⟩, read⟩

/-- **Expansion keeps line numbers.**  Each line of a source becomes one line, an empty one where
a constant is defined, and none ends in a blank; a line depends only on those above it and on
itself.  The line of a fault is the first that has one, and a source without faults is
expanded. -/
theorem expand_keeps_lines (source : String) :
    (∀ out, expand source = .ok out →
      out.toList = (lines out.toList).flatMap (fun line => line ++ ['\n']) ∧
      (lines out.toList).length = (lines source.toList).length ∧
      (∀ (i : Nat) (raw : List Char), (lines source.toList)[i]? = some raw →
        (definition? (bare raw)).isSome = true → (lines out.toList)[i]? = some []) ∧
      (∀ line ∈ lines out.toList, Ended line) ∧
      ∀ i source' out', expand source' = .ok out' →
        (lines source'.toList).take i = (lines source.toList).take i →
        (lines out'.toList).take i = (lines out.toList).take i) ∧
    (∀ e, expand source = .error e →
      ∃ n, FaultAt (lines source.toList) n e ∧
        ∀ m < n, ∀ e', ¬ FaultAt (lines source.toList) m e') ∧
    ((∃ out, expand source = .ok out) ↔ ∀ n e, ¬ FaultAt (lines source.toList) n e) := by
  obtain ⟨first, sound⟩ := expandLines_faults [] [] (lines source.toList) rfl
    (fun m impossible => absurd impossible (Nat.not_lt_zero m))
  refine ⟨fun out done => ?_, fun e failed => first e (expand_error.1 failed), ?_, fun faultless => ?_⟩
  · obtain ⟨expanded, run, rfl⟩ := expand_ok.1 done
    obtain ⟨same, each⟩ := lines_expand run
    rw [String.toList_ofList, same]
    refine ⟨rfl, each.length_eq.symm, ?_, ?_, ?_⟩
    · intro i raw there defines
      have rel := getElem?_rel each i
      rw [there] at rel
      obtain ⟨line, found, -, blank⟩ := exists_of_rel_some rel
      rw [found, blank defines]
    · intro line known
      obtain ⟨raw, -, clean, -⟩ := exists_of_mem_right each known
      exact clean.ended
    · intro i source' out' done' alike
      obtain ⟨expanded', run', rfl⟩ := expand_ok.1 done'
      rw [String.toList_ofList, (lines_expand run').1]
      have above := expandLines_take run' i
      rw [alike, expandLines_take run i] at above
      exact (Except.ok.inj above).symm
  · rintro ⟨out, done⟩
    obtain ⟨expanded, run, -⟩ := expand_ok.1 done
    exact sound expanded run
  · cases done : expand source with
    | ok out => exact ⟨out, rfl⟩
    | error e =>
        obtain ⟨n, fault, -⟩ := first e (expand_error.1 done)
        exact absurd fault (faultless n e)

/-- A value with a semicolon in quotes, one that uses it, and a line that uses that. -/
def quotedValue : String := "A = \"x;y\" ; text\r\nB EQU A+1 \r\n DB B\t; end"

/-- A value is missing on the line before a name is defined again. -/
def twoFaults : String := "A EQU 1\nB = ; none\nA = 2"

theorem expand_keeps_lines_of_values :
    expand quotedValue = .ok "\n\n DB \"x;y\"+1\n" ∧
      (lines quotedValue.toList).length = 3 ∧
      (lines "\n\n DB \"x;y\"+1\n".toList).length = (lines quotedValue.toList).length ∧
      expand twoFaults = .error (.missingValue "B" 2) ∧
      ∃ n, FaultAt (lines twoFaults.toList) n (.missingValue "B" 2) ∧
        ∀ m < n, ∀ e, ¬ FaultAt (lines twoFaults.toList) m e := by
  have done : expand quotedValue = .ok "\n\n DB \"x;y\"+1\n" := by decide +kernel
  have failed : expand twoFaults = .error (.missingValue "B" 2) := by decide +kernel
  exact ⟨done, by decide +kernel, ((expand_keeps_lines quotedValue).1 _ done).2.1, failed,
    (expand_keeps_lines twoFaults).2.1 _ failed⟩

end Asm86.Source.Constants
