/-
# Asm86.Proofs.Assembly.DataLines -- one expression as data

A data line whose only item is an expression stands for the value of that expression, in one byte or
one word.  The words SEGMENT, ENDS, DB and DW are the exception: where one of them comes second in a
line, the first word is a name, and a name may be any word.  So `DB SEGMENT` opens a segment that is
called DB, although SEGMENT is a name that an expression can have (`data_line_value`).

The text of an expression may also look like something else that data can be, a string or a
repetition, or have a comment in it; such texts are left aside here (`DataText`).
-/
import Asm86.Proofs.Assembly.Values
import Asm86.Proofs.Source.Pieces
import Asm86.Proofs.Source.RoundTrip

namespace Asm86.Source

open Asm86.Text
open Asm86.Machine
open Asm86.Checked

set_option autoImplicit false

/-! ## Items -/

/-- Between two equal quotes, and long enough for a string. -/
def StringLike (e : List Char) : Prop :=
  ∃ q text, isQuote q = true ∧ e = q :: (text ++ [q]) ∧ (q = '\x22' ∨ 3 < byteLength e)

theorem stringItem?_eq_none {e : List Char} (plain : ¬ StringLike e) : stringItem? e = none := by
  rw [Option.eq_none_iff_forall_ne_some]
  intro bytes found
  simp only [stringItem?, Option.ite_none_right_eq_some, Bool.or_eq_true, decide_eq_true_eq,
    beq_iff_eq] at found
  obtain ⟨long, quoted⟩ := found
  unfold quotedBytes? at quoted
  split at quoted
  · rename_i q c rest
    split at quoted
    · rename_i ends
      obtain ⟨quote, last⟩ := Bool.and_eq_true_iff.1 ends
      obtain ⟨text, shown⟩ := List.getLast?_eq_some_iff.1 (beq_iff_eq.1 last)
      refine plain ⟨q, text, quote, by rw [shown], long.symm.imp_left fun head => ?_⟩
      simpa using head
    · cases quoted
  · cases quoted

/-- The search for a repetition finds a blank and `DUP`, in either case, if it is there. -/
theorem cutDup?_eq_none {s : List Char} :
    cutDup? s = none ↔ ¬ [' ', 'D', 'U', 'P'] <:+: upper s := by
  induction s with
  | nil => simp [cutDup?, upper]
  | cons c s ih =>
      have here : (upper ((c :: s).take 4) == [' ', 'D', 'U', 'P']) = true ↔
          [' ', 'D', 'U', 'P'] <+: upper (c :: s) := by
        rw [beq_iff_eq, List.prefix_iff_eq_take, upper, upper, List.map_take, eq_comm]
        rfl
      have step : upper (c :: s) = c.toUpper :: upper s := rfl
      rw [step, List.infix_cons_iff, ← step, ← here, not_or, ← ih, cutDup?]
      by_cases found : (upper ((c :: s).take 4) == [' ', 'D', 'U', 'P']) = true
      · rw [if_pos found]
        constructor
        · intro uncut
          cases uncut
        · exact fun absent => absurd found absent.1
      · rw [if_neg found, Option.map_eq_none_iff]
        exact ⟨fun later => ⟨found, later⟩, And.right⟩

theorem cutItems_uncut {s : List Char} (uncut : ',' ∉ s) (quote : Option Char) (depth : Int) :
    cutItems quote depth s = [s] := by
  induction s generalizing quote depth with
  | nil => rfl
  | cons c s ih =>
      obtain ⟨other, later⟩ := not_or.1 (List.mem_cons.not.1 uncut)
      simp [cutItems, Ne.symm other, ih later, onFirstItem]

/-- An expression that looks like no other item of a data line. -/
structure DataText (e : List Char) : Prop where
  tight : Tight e
  uncut : ',' ∉ e
  given : e ≠ ['?']
  code : stripComment e = e
  unquoted : ¬ StringLike e
  single : ¬ [' ', 'D', 'U', 'P'] <:+: upper e

/-- What is left out is read as something else.  A sum that starts and ends with a quote is a string,
here of five bytes. -/
example :
    Expr.parse "'a'+'b'".toList = .ok ⟨97 + 98, none⟩ ∧
      Line.parse "DB 'a'+'b'".toList =
        .ok ⟨none, .data .byte [.string [97, 39, 43, 39, 98]]⟩ := by
  decide

/-- A name that starts with DUP is taken for a repetition. -/
example :
    Expr.parse "OFFSET DUPX".toList = .ok ⟨0, some "DUPX"⟩ ∧
      Line.parse "DB OFFSET DUPX".toList = .error (.badDupCount "OFFSET DUPX") := by
  decide

/-- Where a comment is looked for, a quote in quotes ends them, so the next semicolon in quotes
starts one. -/
example :
    Expr.parse "1+\"\"\"+\";\"".toList = .ok ⟨1 + 34 + 59, none⟩ ∧
      Line.parse "DB 1+\"\"\"+\";\"".toList = .error (.badTerm "\"") := by
  decide

theorem DataText.parseData {e : List Char} (text : DataText e) (shown : e ≠ []) {x : Expr}
    (read : Expr.parse e = .ok x) (w : Width) : parseData w e = .ok (.data w [.value x]) := by
  have items : splitItems e = [e] := by
    simp [splitItems, cutItems_uncut text.uncut, allBlank_eq_false text.tight.start shown,
      trim_tight text.tight]
  have item : parseItem e = .ok (.value x) := by
    simp [parseItem, text.given, stringItem?_eq_none text.unquoted, parseNumericItem,
      cutDup?_eq_none.2 text.single, read, Except.map]
  simp only [Source.parseData, items, List.mapM_cons, item, List.mapM_nil]
  rfl

/-! ## Lines -/

/-- No expression starts with a colon. -/
theorem Expr.parse_colon (t : List Char) (tight : Tight (':' :: t)) (x : Expr) :
    Expr.parse (':' :: t) ≠ .ok x := by
  intro read
  have keyword : isKeyword "OFFSET" (splitWord (':' :: t)).1 = false :=
    isKeyword_eq_false (mem_splitWord (w := []) (by decide) t) (by decide)
  have trimmed : ∀ text, ∃ kept, trim (':' :: text) = ':' :: kept := fun text =>
    trim_append (s := [':']) (Solid.tight (by decide)) (by simp) text
  simp only [Expr.parse, trim_tight tight, stripKeyword?, keyword, Bool.false_eq_true, ↓reduceIte,
    Option.getD_none] at read
  obtain ⟨-, folded⟩ := Terms.foldText_eq_ok.1 read
  -- The first term starts with the colon.
  obtain ⟨kept, others, terms⟩ : ∃ kept others,
      (Terms.ofText (':' :: t)).terms = ⟨false, ':' :: kept⟩ :: others := by
    obtain ⟨text, rest, cut⟩ := pieces_eq_cons none false t
    obtain ⟨kept, first⟩ := trimmed text
    have blank : allBlank (':' :: text) = false := by simp [allBlank, isBlank]
    rw [Terms.ofText, pieces_plain (by decide) (by decide) (by decide), cut, Term.onFirst]
    cases rest with
    | nil => exact ⟨kept, [], by simp [Terms.ofPieces, blank, first]⟩
    | cons p rest =>
        exact ⟨kept, (Terms.ofPieces (p :: rest)).terms, by simp [Terms.ofPieces, blank, first]⟩
  obtain ⟨again, whole⟩ := trimmed kept
  have literal : literal? (':' :: kept) = none := by
    simp [literal?, whole, quotedCode?_unquoted (c := ':') (by decide)]
  have refused : Expr.addTerm {} ⟨false, ':' :: kept⟩ =
      .error (.badTerm (String.ofList (':' :: kept))) := by
    simp [Expr.addTerm, literal, isIdentifier, isNameMark]
  rw [terms, List.foldlM_cons, refused] at folded
  cases folded

theorem dataWidth?_cases {word : List Char} {w : Width} (directive : dataWidth? word = some w) :
    isKeyword "DB" word = true ∧ w = .byte ∨ isKeyword "DW" word = true ∧ w = .word := by
  unfold dataWidth? at directive
  split at directive
  · rename_i bytes
    cases directive
    exact .inl ⟨bytes, rfl⟩
  · split at directive
    · rename_i words
      cases directive
      exact .inr ⟨words, rfl⟩
    · cases directive

theorem DataText.start {e : List Char} (text : DataText e) {x : Expr} (read : Expr.parse e = .ok x) :
    ∃ c rest, e = c :: rest ∧ isBlank c = false ∧ c ≠ ':' := by
  cases e with
  | nil => cases read
  | cons c rest =>
      refine ⟨c, rest, rfl, text.tight.start c rfl, ?_⟩
      rintro rfl
      exact Expr.parse_colon rest text.tight x read

/-- The second word of such a line decides it, or else the data directive. -/
theorem DataText.parse_line {e : List Char} (text : DataText e) {x : Expr}
    (read : Expr.parse e = .ok x) {word : List Char} {w : Width}
    (directive : dataWidth? word = some w) :
    Line.parse (word ++ ' ' :: e) =
      (parseNamed? word e).getD (.ok ⟨none, .data w [.value x]⟩) := by
  obtain ⟨k, known, keyword⟩ : ∃ k ∈ ["DB", "DW"], isKeyword k word = true := by
    rcases dataWidth?_cases directive with ⟨bytes, -⟩ | ⟨words, -⟩
    · exact ⟨"DB", by decide, bytes⟩
    · exact ⟨"DW", by decide, words⟩
  have letters : ∀ k ∈ ["DB", "DW"], k.toList.all Char.isAlpha = true ∧ k.toList ≠ [] := by decide
  have worded := Worded.of_isKeyword (letters k known).1 (letters k known).2 keyword
  obtain ⟨c, rest, rfl, shown, colon⟩ := text.start read
  have code : stripComment (word ++ ' ' :: c :: rest) = word ++ ' ' :: c :: rest := by
    rw [stripComment_append worded.plain]
    have blank := stripComment_append (s := [' ']) (by simp [isQuote]) (c :: rest)
    rw [text.code] at blank
    exact congrArg (word ++ ·) blank
  have tight : Tight (word ++ ' ' :: c :: rest) :=
    worded.solid.tight.around text.tight worded.nonempty (by simp) [' ']
  have front : Tight (word ++ [' ', c]) :=
    worded.solid.tight.around (Solid.tight (by simpa [Solid] using shown)) worded.nonempty (by simp) [' ']
  have absent : ':' ∉ word ++ [' ', c] := by
    simp [worded.not_mem (c := ':') (by decide), Ne.symm colon]
  have unlabelled : splitLabel (word ++ ' ' :: c :: rest) = (none, word ++ ' ' :: c :: rest) := by
    have spaced := splitLabel_spaced front (b := ' ') (by simp) (by decide) absent rest
    simpa using spaced
  have split : splitWord (word ++ ' ' :: c :: rest) = (word, c :: rest) :=
    splitWord_append worded.solid worded.nonempty text.tight (by simp)
  have other : ∀ k ∈ ["ASSUME", "END"], isKeyword k word = false := by
    intro k' directive'
    have spelled : upper word = k.toList := by simpa [isKeyword] using keyword
    have apart : ∀ a ∈ ["DB", "DW"], ∀ b ∈ ["ASSUME", "END"], a.toList ≠ b.toList := by decide
    simpa [isKeyword, spelled] using apart k known k' directive'
  have statement : parseStatement word (c :: rest) = .ok (.data w [.value x]) := by
    simp only [parseStatement, other "ASSUME" (by decide), other "END" (by decide), Bool.or_self,
      Bool.false_eq_true, ↓reduceIte, directive, text.parseData (by simp) read]
  rw [Line.parse, code, trim_tight tight, unlabelled]
  have present : (word ++ ' ' :: c :: rest).isEmpty = false := by simp
  simp only [parseBody, present, Bool.false_eq_true, ↓reduceIte, split, Option.isNone_none, statement]
  cases parseNamed? word (c :: rest) <;> rfl

/-- A directive word in second place makes the line something else. -/
theorem parseNamed?_directive (first : List Char) {e : List Char} (tight : Tight e) {k : String}
    (directive : k ∈ directiveWords) (found : isKeyword k (firstWord e) = true) (w : Width)
    (items : List DataItem) :
    (parseNamed? first e).getD (.ok ⟨none, .data w items⟩) ≠ .ok ⟨none, .data w items⟩ := by
  have second : (splitWord e).1 = firstWord e := congrArg Prod.fst (splitWord_tight tight)
  unfold parseNamed?
  dsimp only
  split
  · exact fun same => nomatch same
  · split
    · exact fun same => nomatch same
    · split
      · split
        · rw [Option.getD_some]
          intro labelled
          obtain ⟨st, -, same⟩ := map_eq_ok.1 labelled
          cases same
        · exact fun same => nomatch same
      · rename_i start finish _ unsized
        unfold dataWidth? at unsized
        rw [second] at start finish unsized
        split at unsized
        · cases unsized
        · split at unsized
          · cases unsized
          · simp only [directiveWords, List.mem_cons, List.not_mem_nil, or_false] at directive
            rcases directive with rfl | rfl | rfl | rfl <;> contradiction

end Asm86.Source

namespace Asm86.Assembly

open Asm86.Text
open Asm86.Machine
open Asm86.Source
open Asm86.Checked

/-- **An expression as data is one value**, in one field of the width, exactly when its first word
is no directive word. -/
theorem data_line_value {word e : List Char} {w : Width} {x : Expr}
    (directive : dataWidth? word = some w) (text : DataText e) (read : Expr.parse e = .ok x) :
    (Line.parse (word ++ ' ' :: e) = .ok ⟨none, .data w [.value x]⟩ ↔
      ∀ k ∈ directiveWords, isKeyword k (firstWord e) = false) ∧
      ∀ (s : Scope) bytes, s.data w [.value x] = .ok bytes → bytes.length = w.size := by
  constructor
  · rw [text.parse_line read directive]
    constructor
    · intro plain k named
      rw [← Bool.not_eq_true]
      exact fun found => parseNamed?_directive word text.tight named found w [.value x] plain
    · intro others
      rw [parseNamed?_none word text.tight others]
      rfl
  · intro s bytes written
    obtain ⟨first, found, written⟩ := bind_eq_ok.1 written
    obtain ⟨others, rest, written⟩ := bind_eq_ok.1 written
    cases rest
    cases written
    rw [List.append_nil, Scope.dataValue_length found]
    rcases dataWidth?_cases directive with ⟨-, rfl⟩ | ⟨-, rfl⟩ <;> rfl

/-- A semicolon in quotes is no comment. -/
theorem data_line_value_offset :
    Expr.parse "OFFSET buffer+';'".toList = .ok ⟨59, some "buffer"⟩ ∧
      Line.parse "DW OFFSET buffer+';'".toList =
        .ok ⟨none, .data .word [.value ⟨59, some "buffer"⟩]⟩ := by
  have read : Expr.parse "OFFSET buffer+';'".toList = .ok ⟨59, some "buffer"⟩ := by decide
  have unquoted : ¬ StringLike "OFFSET buffer+';'".toList := by
    rintro ⟨q, text, quote, shown, -⟩
    have first : 'O' = q := (List.cons.inj shown).1
    exact absurd (first ▸ quote) (by decide)
  have tight : Tight "OFFSET buffer+';'".toList := by
    have whole : trim "OFFSET buffer+';'".toList = "OFFSET buffer+';'".toList := by decide
    exact whole ▸ tight_trim _
  have text : DataText "OFFSET buffer+';'".toList :=
    ⟨tight, by decide, by decide, by decide, unquoted, cutDup?_eq_none.1 (by decide)⟩
  exact ⟨read, (@data_line_value "DW".toList _ .word _ (by decide) text read).1.2 (by decide)⟩

/-- SEGMENT is a name in an expression, and behind any word it opens a segment. -/
theorem segment_named_db :
    Expr.parse "SEGMENT".toList = .ok ⟨0, some "SEGMENT"⟩ ∧
      Line.parse "DB SEGMENT".toList = .ok ⟨none, .segmentStart "DB"⟩ := by
  decide

end Asm86.Assembly
