/-
# Asm86.Proofs.Assembly.Expansion -- expansion is not seen where no constants are defined

Without constants, expansion only takes off what reading a line takes off as well: the comment
and the blanks before it (`parse_bare`).  So the lines of the expanded source are read like
those of the source, and are assembled to the same image and the same symbols or fail alike
(`expand_unseen`).  Only the texts in the listing tell the two apart.
-/
import Asm86.Proofs.Assembly.Rows
import Asm86.Proofs.Source.Expansion

namespace Asm86.Assembly

open Asm86.Text
open Asm86.Source
open Asm86.Output

set_option autoImplicit false

/-- The comment of a line and the blanks before it are not read. -/
theorem parse_bare (line : List Char) : Line.parse (bare line) = Line.parse line := by
  rw [Line.parse, stripComment_bare, bare, trim_trimEnd, Line.parse]

/-- What was assembled, with no texts in the listing. -/
def Assembled.withoutTexts (out : Assembled) : Assembled :=
  { out with listing := out.listing.map Row.withoutText }

/-- The rows without their texts. -/
def bareRows (rows : Array Row) : List Row := rows.toList.map Row.withoutText

/-- Sources that are read alike differ in the texts of their listings only. -/
theorem assemble_readAlike {source source' : String}
    (alike : ReadAlike (lines source.toList) (lines source'.toList)) (cfg : Config) :
    (assemble source' cfg).map Assembled.withoutTexts =
      (assemble source cfg).map Assembled.withoutTexts := by
  have kept : Assembler.KeptByRows fun rows rows' => rows.map bareRows = rows'.map bareRows := by
    have pushed : ∀ (rows : Option (Array Row)) (r : Row),
        (rows.map fun rows => rows.push r).map bareRows =
          (rows.map bareRows).map fun shown => shown ++ [r.withoutText] := by
      intro rows r
      cases rows <;> simp [bareRows]
    intro rows rows' r r' related same
    rw [pushed, pushed, related, same]
  refine assemble_relisted kept alike cfg cfg rfl rfl rfl _ _ ?_
  intro image symbols rows rows' related
  have shown : ∀ rows : Option (Array Row),
      (rows.getD #[]).toList.map Row.withoutText = (rows.map bareRows).getD [] := by
    intro rows
    cases rows <;> rfl
  simp only [Assembled.withoutTexts, shown, related]

/-- **Expansion is not seen where no constants are defined.**  It succeeds, a second one changes
nothing, and the expanded source is assembled to the same image and symbols, or fails with the
same fault on the same line; the rows of the listing agree in all but their texts. -/
theorem expand_unseen {source : String}
    (plain : ∀ raw ∈ lines source.toList,
      Constants.definition? (trimEnd (stripComment raw)) = none) (cfg : Config) :
    ∃ out, Constants.expand source = .ok out ∧ Constants.expand out = .ok out ∧
      (assemble out cfg).map Assembled.withoutTexts =
        (assemble source cfg).map Assembled.withoutTexts := by
  obtain ⟨out, done, again, read⟩ := Constants.expand_plain plain
  refine ⟨out, done, again, assemble_readAlike ?_ cfg⟩
  rw [read]
  exact List.forall₂_map_right_iff.2 (List.forall₂_same.2 fun raw _ => (parse_bare raw).symm)

/-- Comments behind a bracket and behind data with a semicolon in it. -/
def commented : String := "C SEGMENT ; code\r\nA: DB \"a;b\" \t; text\r\n HLT"

/-- The listings differ, but in nothing else than the text of a row. -/
theorem expand_unseen_commented :
    (∀ raw ∈ lines commented.toList, Constants.definition? (trimEnd (stripComment raw)) = none) ∧
      ∃ out, Constants.expand commented = .ok out ∧ out = "C SEGMENT\nA: DB \"a;b\"\n HLT\n" ∧
        (assemble out { listing := true }).map Assembled.withoutTexts =
          (assemble commented { listing := true }).map Assembled.withoutTexts ∧
        assemble out { listing := true } ≠ assemble commented { listing := true } := by
  have each : (lines commented.toList).all (fun raw =>
      (Constants.definition? (trimEnd (stripComment raw))).isNone) = true := by decide +kernel
  have plain : ∀ raw ∈ lines commented.toList,
      Constants.definition? (trimEnd (stripComment raw)) = none :=
    fun raw known => Option.isNone_iff_eq_none.1 (List.all_eq_true.1 each raw known)
  obtain ⟨out, done, -, same⟩ := expand_unseen plain { listing := true }
  have text : Constants.expand commented = .ok "C SEGMENT\nA: DB \"a;b\"\n HLT\n" := by
    decide +kernel
  cases done.symm.trans text
  exact ⟨plain, _, done, rfl, same, by decide +kernel⟩

end Asm86.Assembly
