/-
# Asm86.Proofs.Command.Temporary -- what failed commands leave behind

`build` and `pass2` write their image under a temporary name and rename it when it is whole.
Each way out of them is a lemma of its own, which says what the files are then:

* `build` writes nothing before the image is whole, so a failed one changes nothing
  (`build_unread`, `build_refused`);
* `pass2` creates the temporary file before it looks at the block.  A fault of the source found
  behind that removes it again (`encodeImage_refused`).  A block that cannot be read does not
  (`pass2_bad_block`), and neither does the end of the program at an address past 32 bits
  (`encodeImage_ended`).

So a failed command never touches the output, and it leaves a temporary file exactly in the two
cases that `Request.abandons` names (`failed_run_keeps_output`).
-/
import Asm86.Proofs.Checked
import Asm86.Proofs.Command.Files

namespace Asm86.Command

open Asm86.Checked
open Asm86.Source
open Asm86.Symbols
open Asm86.Output
open Asm86.Assembly

set_option autoImplicit false

/-! ## Paths -/

/-- What follows the last slash of a path, slashes and steps `.` at its end aside. -/
def lastName (path : String) : List Char :=
  ((dropTail path.toList.reverse).takeWhile fun c => c != '/').reverse

/-- The path leads to a folder, and no extension can be put on it. -/
def Nameless (path : String) : Prop :=
  lastName path = [] ∨ lastName path = ['.'] ∨ lastName path = ['.', '.']

/-- Only a path without a name, or with the extension itself, stays the same. -/
theorem temporaryPath_eq_self {path : String} (same : temporaryPath path = path) :
    Nameless path ∨ ".part".toList <:+ path.toList := by
  unfold temporaryPath withExtension at same
  simp only [List.reverse_reverse] at same
  rw [← lastName.eq_def] at same
  have ends : lastName path <:+ (dropTail path.toList.reverse).reverse := by
    rw [lastName, List.reverse_suffix]
    exact List.takeWhile_prefix _
  have parts := List.suffix_iff_eq_append.1 ends
  generalize (dropTail path.toList.reverse).reverse = body at same parts
  split at same
  · rename_i nameless
    simp only [Bool.or_eq_true, List.isEmpty_iff, beq_iff_eq, or_assoc] at nameless
    exact .inl nameless
  · split at same
    · -- The folder and `..` are the whole path, so `..` was the name already.
      rename_i dots
      simp only [Bool.and_eq_true, beq_iff_eq] at dots
      have whole := congrArg String.toList same
      rw [String.toList_ofList] at whole
      have name := List.append_cancel_left (parts.trans (dots.2.trans whole.symm))
      exact .inl (.inr (.inr name))
    · have whole := congrArg String.toList same
      rw [String.toList_ofList] at whole
      exact .inr ⟨_, whole⟩

/-! ## Requests -/

/-- Where a request puts its image. -/
def Request.output? : Request → Option String
  | .build src output _ _ => some (outputPath src output)
  | .pass1 .. => none
  | .pass2 src _ output _ => some (outputPath src output)

/-- The other paths of a request. -/
def Request.others : Request → List String
  | .build src _ listing symbolsJson => src :: (listing.toList ++ symbolsJson.toList)
  | .pass1 src symbols symbolsJson => src :: symbols :: symbolsJson.toList
  | .pass2 src symbols _ listing => src :: symbols :: listing.toList

/-- The faults that leave a temporary file behind: a block that cannot be read, and an address
past 32 bits, both in the second pass alone. -/
def Request.abandons : Request → CommandError → Bool
  | .pass2 .., .transfer _ => true
  | .pass2 .., .assembly _ e => endsProgram e
  | _, _ => false

/-- The image that a request is for, given the files before it. -/
inductive Request.Makes (files : FileMap) (cfg : Config) : Request → ByteArray → Prop where
  | build {src text : String} {output listing symbolsJson : Option String} {done : Assembled}
      (source : files.source src = .ok text)
      (assembled : assemble text (withListing cfg listing) = .ok done) :
      Makes files cfg (.build src output listing symbolsJson) ⟨done.image.bytes⟩
  | pass2 {src symbols text : String} {output listing : Option String} {block : ByteArray}
      {snapshot : Snapshot} {rest : List UInt8} {a : Assembler}
      (source : files.source src = .ok text) (held : files.get? symbols = some block)
      (read : Snapshot.read block.data.toList = .ok (snapshot, rest))
      (passed : passTwo text snapshot (withListing cfg listing) .unlimited = .ok () a) :
      Makes files cfg (.pass2 src symbols output listing) ⟨a.sink.bytes⟩

/-! ## Writing -/

/-- The action succeeds and changes at most one file. -/
def Writes (target : Option String) (x : Action Unit) : Prop :=
  ∀ files : FileMap, ∃ after, x.outcome files = (.ok (), after) ∧
    ∀ path, target ≠ some path → after.get? path = files.get? path

theorem writeText_writes (target text : String) : Writes (some target) (writeText target text) := by
  intro files
  refine ⟨files.put target text.toUTF8, outcome_write .writing target _, ?_⟩
  intro path other
  rw [FileMap.get?_put, if_neg]
  rintro rfl
  exact other rfl

theorem writeListing_writes (listing : Option String) (rows : List Row) :
    Writes listing (writeListing listing rows) := by
  cases listing with
  | none => exact fun files => ⟨files, rfl, fun _ _ => rfl⟩
  | some target => exact writeText_writes target _

theorem writeSymbols_writes (symbolsJson : Option String) (s : Snapshot) :
    Writes symbolsJson (writeSymbols symbolsJson s) := by
  cases symbolsJson with
  | none => exact fun files => ⟨files, rfl, fun _ _ => rfl⟩
  | some target => exact writeText_writes target _

/-- The files with an image at a path and nothing under its temporary name. -/
def FileMap.withImage (files : FileMap) (path : String) (image : ByteArray) : FileMap :=
  ((files.put (temporaryPath path) image).erase (temporaryPath path)).put path image

theorem FileMap.get?_withImage (files : FileMap) (path other : String) (image : ByteArray) :
    (files.withImage path image).get? other =
      if other = path then some image
      else if other = temporaryPath path then none
      else files.get? other := by
  rw [withImage, get?_put, get?_erase, get?_put]
  split
  · rfl
  · split <;> rfl

theorem outcome_writeImage (files : FileMap) (path : String) (image : ByteArray) :
    Action.outcome (writeImage path image) files = (.ok (), files.withImage path image) := by
  have held : (files.put (temporaryPath path) image).get? (temporaryPath path) = some image := by
    rw [FileMap.get?_put, if_pos rfl]
  exact (outcome_bind_ok (outcome_write ..)).trans (outcome_rename held)

/-! ## Ways out of a build -/

section Exits

variable {cfg : Config} {src symbols text : String} {output listing symbolsJson : Option String}
variable {files : FileMap}

theorem build_unread {e : CommandError} (unread : files.source src = .error e) :
    Action.outcome (build cfg src output listing symbolsJson) files = (.error e, files) := by
  exact outcome_bind_error ((readSource_reads src).outcome unread)

theorem build_refused {e : LineError} (source : files.source src = .ok text)
    (refused : assemble text (withListing cfg listing) = .error e) :
    Action.outcome (build cfg src output listing symbolsJson) files =
      (.error (.assembly src e), files) := by
  refine (outcome_bind_ok ((readSource_reads src).outcome source)).trans (outcome_bind_error ?_)
  rw [refused, outcome_ofResult]
  rfl

theorem build_done {done : Assembled} (source : files.source src = .ok text)
    (assembled : assemble text (withListing cfg listing) = .ok done) :
    ∃ after,
      Action.outcome (build cfg src output listing symbolsJson) files = (.ok (), after) ∧
      ∀ path, listing ≠ some path → symbolsJson ≠ some path →
        after.get? path =
          (files.withImage (outputPath src output) ⟨done.image.bytes⟩).get? path := by
  obtain ⟨listed, first, frame⟩ := writeListing_writes listing done.listing
    (files.withImage (outputPath src output) ⟨done.image.bytes⟩)
  obtain ⟨after, second, frame'⟩ := writeSymbols_writes symbolsJson done.symbols listed
  refine ⟨after, ?_, fun path other other' => (frame' path other').trans (frame path other)⟩
  have result : Action.outcome (ofResult (.assembly src) (assemble text (withListing cfg listing)))
      files = (.ok done, files) := by
    rw [assembled, outcome_ofResult]
    rfl
  calc Action.outcome (build cfg src output listing symbolsJson) files
      = _ := outcome_bind_ok ((readSource_reads src).outcome source)
    _ = _ := outcome_bind_ok result
    _ = _ := outcome_bind_ok (outcome_writeImage ..)
    _ = _ := outcome_bind_ok first
    _ = (.ok (), after) := second

/-! ## Ways out of a second pass -/

theorem takeBlock_missing (missing : files.get? symbols = none) :
    Action.outcome (takeBlock symbols) files =
      (.error (.file .opening symbols .missing), files) := by
  refine (outcome_bind_ok (outcome_lift _)).trans ?_
  rw [run_read, FileMap.read, missing]
  rfl

theorem takeBlock_held {block : ByteArray} (held : files.get? symbols = some block) :
    Action.outcome (takeBlock symbols) files = (.ok block, files.erase symbols) := by
  refine (outcome_bind_ok (outcome_lift _)).trans ?_
  rw [run_read, FileMap.read, held]
  exact outcome_bind_ok (outcome_remove held)

theorem pass2_unread {e : CommandError} (unread : files.source src = .error e) :
    Action.outcome (pass2 cfg src symbols output listing) files = (.error e, files) :=
  outcome_bind_error ((readSource_reads src).outcome unread)

theorem pass2_no_block (source : files.source src = .ok text)
    (missing : files.get? symbols = none) :
    Action.outcome (pass2 cfg src symbols output listing) files =
      (.error (.file .opening symbols .missing), files) :=
  (outcome_bind_ok ((readSource_reads src).outcome source)).trans
    (outcome_bind_error (takeBlock_missing missing))

/-- The block is gone and the temporary file there, still empty. -/
def FileMap.opened (files : FileMap) (symbols path : String) : FileMap :=
  (files.erase symbols).put (temporaryPath path) ByteArray.empty

theorem FileMap.get?_opened (files : FileMap) (symbols path other : String) :
    (files.opened symbols path).get? other =
      if other = temporaryPath path then some ByteArray.empty
      else if other = symbols then none
      else files.get? other := by
  rw [opened, get?_put, get?_erase]

variable {block : ByteArray}

theorem pass2_bad_block {e : TransferError} (source : files.source src = .ok text)
    (held : files.get? symbols = some block) (bad : Snapshot.read block.data.toList = .error e) :
    Action.outcome (pass2 cfg src symbols output listing) files =
      (.error (.transfer e), files.opened symbols (outputPath src output)) := by
  have fault : Action.outcome (ofResult .transfer (Snapshot.read block.data.toList))
      (files.opened symbols (outputPath src output)) =
        (.error (.transfer e), files.opened symbols (outputPath src output)) := by
    rw [bad, outcome_ofResult]
    rfl
  calc Action.outcome (pass2 cfg src symbols output listing) files
      = _ := outcome_bind_ok ((readSource_reads src).outcome source)
    _ = _ := outcome_bind_ok (takeBlock_held held)
    _ = _ := outcome_bind_ok (outcome_write ..)
    _ = _ := outcome_bind_error fault

variable {snapshot : Snapshot} {rest : List UInt8}

/-- With a block that can be read, the outcome is that of the pass over the opened files. -/
theorem pass2_read (source : files.source src = .ok text)
    (held : files.get? symbols = some block)
    (read : Snapshot.read block.data.toList = .ok (snapshot, rest)) :
    Action.outcome (pass2 cfg src symbols output listing) files =
      Action.outcome
        (encodeImage (withListing cfg listing) src text (outputPath src output) snapshot >>=
          writeListing listing)
        (files.opened symbols (outputPath src output)) := by
  have result : Action.outcome (ofResult .transfer (Snapshot.read block.data.toList))
      (files.opened symbols (outputPath src output)) =
        (.ok (snapshot, rest), files.opened symbols (outputPath src output)) := by
    rw [read, outcome_ofResult]
    rfl
  calc Action.outcome (pass2 cfg src symbols output listing) files
      = _ := outcome_bind_ok ((readSource_reads src).outcome source)
    _ = _ := outcome_bind_ok (takeBlock_held held)
    _ = _ := outcome_bind_ok (outcome_write ..)
    _ = _ := outcome_bind_ok result

variable {path : String} {a : Assembler} {e : LineError}

/-- A fault of the source removes the temporary file. -/
theorem encodeImage_refused (refused : passTwo text snapshot cfg .unlimited = .error e a)
    (reported : endsProgram e = false) {bytes : ByteArray}
    (created : files.get? (temporaryPath path) = some bytes) :
    Action.outcome (encodeImage cfg src text path snapshot) files =
      (.error (.assembly src e), files.erase (temporaryPath path)) := by
  simp only [encodeImage, refused, reported, Bool.false_eq_true, ↓reduceIte]
  rw [outcome_bind_ok (outcome_lift _), run_remove created]
  rfl

/-- The end of the program leaves what was written so far. -/
theorem encodeImage_ended (refused : passTwo text snapshot cfg .unlimited = .error e a)
    (ended : endsProgram e = true) :
    Action.outcome (encodeImage cfg src text path snapshot) files =
      (.error (.assembly src e), files.put (temporaryPath path) ⟨a.sink.bytes⟩) := by
  simp only [encodeImage, refused, ended, ↓reduceIte]
  rfl

theorem encodeImage_done (passed : passTwo text snapshot cfg .unlimited = .ok () a) :
    Action.outcome (encodeImage cfg src text path snapshot) files =
      (.ok a.listing, files.withImage path ⟨a.sink.bytes⟩) := by
  simp only [encodeImage, passed]
  exact outcome_bind_ok (outcome_writeImage files path ⟨a.sink.bytes⟩)

end Exits

/-! ## How a run ends -/

/-- The faults that are found while nothing has been written. -/
def CommandError.early : CommandError → Bool
  | .assembly .. | .transfer _ => false
  | _ => true

theorem Request.abandons_of_early (r : Request) {e : CommandError} (early : e.early = true) :
    r.abandons e = false := by
  cases r <;> cases e <;> first | rfl | cases early

section Early

variable {files : FileMap} {reader : String → Option Config} {e : CommandError}

theorem FileMap.text_early {path : String} (failed : files.text path = .error e) :
    e.early = true := by
  rcases bind_eq_error.1 failed with unread | ⟨bytes, -, notText⟩
  · obtain ⟨fault, -, rfl⟩ := mapError_eq_error.1 unread
    rfl
  · obtain ⟨fault, -, rfl⟩ := mapError_eq_error.1 notText
    rfl

theorem FileMap.source_early {src : String} (failed : files.source src = .error e) :
    e.early = true := by
  rcases bind_eq_error.1 failed with unread | ⟨text, -, unexpanded⟩
  · exact text_early unread
  · obtain ⟨fault, -, rfl⟩ := mapError_eq_error.1 unexpanded
    rfl

theorem FileMap.settings_early {path : Option String}
    (failed : files.settings reader path = .error e) : e.early = true := by
  cases path with
  | none => cases failed
  | some path =>
      rcases bind_eq_error.1 failed with unread | ⟨text, -, unparsed⟩
      · exact text_early unread
      · cases parsed : reader text with
        | none =>
            rw [parsed] at unparsed
            cases unparsed
            rfl
        | some cfg =>
            rw [parsed] at unparsed
            cases unparsed

theorem parseOrigin_early {text : String} (failed : parseOrigin text = .error e) :
    e.early = true := by
  unfold parseOrigin at failed
  split at failed
  · split at failed
    · cases failed
    · cases failed
      rfl
  · cases failed
    rfl

theorem FileMap.config_early {i : Invocation} (failed : files.config reader i = .error e) :
    e.early = true := by
  rcases bind_eq_error.1 failed with unread | ⟨cfg, -, unset⟩
  · exact settings_early unread
  · cases origin : i.origin with
    | none =>
        rw [origin] at unset
        cases unset
    | some text =>
        rw [origin] at unset
        exact parseOrigin_early (map_eq_error.1 unset)

end Early

/-- How a run for an image at `out` ends: it fails, there being no such image, and keeps to the
temporary file; or it leaves the image and no temporary file. -/
inductive Ends (r : Request) (out : String) (before : FileMap) (makes : ByteArray → Prop) :
    Except CommandError Unit × FileMap → Prop where
  | failed {e : CommandError} {after : FileMap} (nothing : ∀ image, ¬ makes image)
      (kept : temporaryPath out ≠ out → after.get? out = before.get? out)
      (left : before.get? (temporaryPath out) = none →
        (after.get? (temporaryPath out)).isSome = r.abandons e) :
      Ends r out before makes (.error e, after)
  | done {image : ByteArray} {after : FileMap} (made : makes image)
      (held : after.get? out = some image)
      (clean : temporaryPath out ≠ out → after.get? (temporaryPath out) = none) :
      Ends r out before makes (.ok (), after)

/-- A fault before anything was written. -/
theorem Ends.unchanged {r : Request} {out : String} {files : FileMap} {makes : ByteArray → Prop}
    {e : CommandError} (nothing : ∀ image, ¬ makes image) (harmless : r.abandons e = false) :
    Ends r out files makes (.error e, files) :=
  .failed nothing (fun _ => rfl) fun absent => by rw [absent, harmless, Option.isSome_none]

section Requests

variable {cfg : Config} {src symbols : String} {output listing symbolsJson : Option String}

theorem not_mem_others {others : List String} {out path : String}
    (apart : ∀ path ∈ others, path ≠ out ∧ path ≠ temporaryPath out)
    (own : path ∈ [out, temporaryPath out]) : path ∉ others := by
  intro member
  obtain ⟨first, second⟩ := apart path member
  simp [first, second] at own

theorem build_ends (files : FileMap)
    (apart : ∀ path ∈ (Request.build src output listing symbolsJson).others,
      path ≠ outputPath src output ∧ path ≠ temporaryPath (outputPath src output)) :
    Ends (.build src output listing symbolsJson) (outputPath src output) files
      ((Request.build src output listing symbolsJson).Makes files cfg)
      (Action.outcome (build cfg src output listing symbolsJson) files) := by
  cases source : files.source src with
  | error e =>
      rw [build_unread source]
      have early := FileMap.source_early source
      refine .unchanged (fun image makes => ?_) (Request.abandons_of_early _ early)
      cases makes with
      | build found assembled => cases source.symm.trans found
  | ok text =>
      cases result : assemble text (withListing cfg listing) with
      | error e =>
          rw [build_refused source result]
          refine .unchanged (fun image makes => ?_) rfl
          cases makes with
          | build found assembled =>
              cases source.symm.trans found
              cases result.symm.trans assembled
      | ok done =>
          obtain ⟨after, ran, frame⟩ := build_done source result
          rw [ran]
          have clear : ∀ path ∈ [outputPath src output, temporaryPath (outputPath src output)],
              listing ≠ some path ∧ symbolsJson ≠ some path := by
            intro path own
            have foreign := not_mem_others apart own
            constructor
            · rintro rfl
              exact foreign (by simp [Request.others])
            · rintro rfl
              exact foreign (by simp [Request.others])
          obtain ⟨⟨left, left'⟩, ⟨right, right'⟩⟩ := by simpa using clear
          refine .done (.build source result) ?_ fun distinct => ?_
          · rw [frame _ left left', FileMap.get?_withImage, if_pos rfl]
          · rw [frame _ right right', FileMap.get?_withImage, if_neg distinct, if_pos rfl]

/-- The second pass over files in which the temporary file stands ready. -/
theorem pass2_read_ends {files : FileMap} {text : String} {block : ByteArray} {snapshot : Snapshot}
    {rest : List UInt8} (source : files.source src = .ok text)
    (held : files.get? symbols = some block)
    (read : Snapshot.read block.data.toList = .ok (snapshot, rest))
    (apart : ∀ path ∈ (Request.pass2 src symbols output listing).others,
      path ≠ outputPath src output ∧ path ≠ temporaryPath (outputPath src output)) :
    Ends (.pass2 src symbols output listing) (outputPath src output) files
      ((Request.pass2 src symbols output listing).Makes files cfg)
      (Action.outcome (pass2 cfg src symbols output listing) files) := by
  have block_out : symbols ≠ outputPath src output := (apart symbols (by simp [Request.others])).1
  rw [pass2_read source held read]
  cases result : passTwo text snapshot (withListing cfg listing) .unlimited with
  | error e a =>
      have nothing : ∀ image, ¬ (Request.pass2 src symbols output listing).Makes files cfg image := by
        intro image makes
        cases makes with
        | pass2 found held' read' passed =>
            cases source.symm.trans found
            cases held.symm.trans held'
            cases read.symm.trans read'
            cases result.symm.trans passed
      cases ended : endsProgram e with
      | true =>
          rw [outcome_bind_error (encodeImage_ended result ended)]
          refine .failed nothing (fun distinct => ?_) fun absent => ?_
          · rw [FileMap.get?_put, if_neg distinct.symm, FileMap.get?_opened, if_neg distinct.symm,
              if_neg block_out.symm]
          · rw [FileMap.get?_put, if_pos rfl, Option.isSome_some, Request.abandons, ended]
      | false =>
          have created : (files.opened symbols (outputPath src output)).get?
              (temporaryPath (outputPath src output)) = some ByteArray.empty := by
            rw [FileMap.get?_opened, if_pos rfl]
          rw [outcome_bind_error (encodeImage_refused result ended created)]
          refine .failed nothing (fun distinct => ?_) fun absent => ?_
          · rw [FileMap.get?_erase, if_neg distinct.symm, FileMap.get?_opened, if_neg distinct.symm,
              if_neg block_out.symm]
          · rw [FileMap.get?_erase, if_pos rfl, Option.isSome_none, Request.abandons, ended]
  | ok _ a =>
      obtain ⟨after, wrote, frame⟩ := writeListing_writes listing a.listing
        ((files.opened symbols (outputPath src output)).withImage (outputPath src output)
          ⟨a.sink.bytes⟩)
      rw [outcome_bind_ok (encodeImage_done result), wrote]
      have clear : ∀ path ∈ [outputPath src output, temporaryPath (outputPath src output)],
          listing ≠ some path := by
        rintro path own rfl
        exact not_mem_others apart own (by simp [Request.others])
      obtain ⟨left, right⟩ := by simpa using clear
      refine .done (.pass2 source held read result) ?_ fun distinct => ?_
      · rw [frame _ left, FileMap.get?_withImage, if_pos rfl]
      · rw [frame _ right, FileMap.get?_withImage, if_neg distinct, if_pos rfl]

theorem pass2_ends (files : FileMap)
    (apart : ∀ path ∈ (Request.pass2 src symbols output listing).others,
      path ≠ outputPath src output ∧ path ≠ temporaryPath (outputPath src output)) :
    Ends (.pass2 src symbols output listing) (outputPath src output) files
      ((Request.pass2 src symbols output listing).Makes files cfg)
      (Action.outcome (pass2 cfg src symbols output listing) files) := by
  have block_out : symbols ≠ outputPath src output := (apart symbols (by simp [Request.others])).1
  cases source : files.source src with
  | error e =>
      rw [pass2_unread source]
      have early := FileMap.source_early source
      refine .unchanged (fun image makes => ?_) (Request.abandons_of_early _ early)
      cases makes with
      | pass2 found held read passed => cases source.symm.trans found
  | ok text =>
      cases held : files.get? symbols with
      | none =>
          rw [pass2_no_block source held]
          refine .unchanged (fun image makes => ?_) rfl
          cases makes with
          | pass2 found held' read passed => cases held.symm.trans held'
      | some block =>
          cases read : Snapshot.read block.data.toList with
          | error e =>
              rw [pass2_bad_block source held read]
              refine .failed (fun image makes => ?_) (fun distinct => ?_) fun absent => ?_
              · cases makes with
                | pass2 found held' read' passed =>
                    cases held.symm.trans held'
                    cases read.symm.trans read'
              · rw [FileMap.get?_opened, if_neg distinct.symm, if_neg block_out.symm]
              · rw [FileMap.get?_opened, if_pos rfl]
                rfl
          | ok received => exact pass2_read_ends source held read apart

end Requests

/-! ## Invocations -/

/-- A run on files held by path, given a reader of settings. -/
def Invocation.runOn (i : Invocation) (reader : String → Option Config) (files : FileMap) :
    Except CommandError Unit × FileMap :=
  Action.outcome (i.runWith reader) files

/-- The image that an invocation is for, given the files before it. -/
def Invocation.Makes (i : Invocation) (reader : String → Option Config) (files : FileMap)
    (image : ByteArray) : Prop :=
  ∃ cfg, files.config reader i = .ok cfg ∧ i.request.Makes files cfg image

theorem Invocation.run_ends {i : Invocation} {out : String} (writes : i.request.output? = some out)
    (apart : ∀ path ∈ i.request.others, path ≠ out ∧ path ≠ temporaryPath out)
    (reader : String → Option Config) (files : FileMap) :
    Ends i.request out files (i.Makes reader files) (i.runOn reader files) := by
  cases config : files.config reader i with
  | error e =>
      have ran : i.runOn reader files = (.error e, files) :=
        outcome_bind_error ((loadConfig_reads reader i).outcome config)
      rw [ran]
      refine .unchanged ?_ (Request.abandons_of_early _ (FileMap.config_early config))
      rintro image ⟨cfg, found, -⟩
      cases config.symm.trans found
  | ok cfg =>
      have same : i.Makes reader files = i.request.Makes files cfg := by
        funext image
        apply propext
        constructor
        · rintro ⟨cfg', found, makes⟩
          cases config.symm.trans found
          exact makes
        · exact fun makes => ⟨cfg, config, makes⟩
      rw [same]
      have start := (loadConfig_reads reader i).outcome config
      obtain ⟨path, origin, request⟩ := i
      cases request with
      | build src output listing symbolsJson =>
          cases writes
          have ran :
              Invocation.runOn ⟨path, origin, .build src output listing symbolsJson⟩ reader files =
                Action.outcome (build cfg src output listing symbolsJson) files :=
            outcome_bind_ok start
          rw [ran]
          exact build_ends files apart
      | pass1 src symbols symbolsJson => cases writes
      | pass2 src symbols output listing =>
          cases writes
          have ran :
              Invocation.runOn ⟨path, origin, .pass2 src symbols output listing⟩ reader files =
                Action.outcome (pass2 cfg src symbols output listing) files :=
            outcome_bind_ok start
          rw [ran]
          exact pass2_ends files apart

/-- What commands that write an image leave behind, when their other files are none of the two
that belong to the image, whatever the reader of settings makes of their texts.

* A failed command leaves the output as it was.  Where there was no temporary file there is none
  afterwards, unless the fault is one of those that abandon it.
* A command succeeds exactly when there is an image for it to make.  The output then holds that
  image, and there is no temporary file.

The output and its temporary file are two, unless the output has no name to put an extension on. -/
theorem failed_run_keeps_output {i : Invocation} {out : String}
    (writes : i.request.output? = some out) (unmarked : ¬ ".part".toList <:+ out.toList)
    (apart : ∀ path ∈ i.request.others, path ≠ out ∧ path ≠ temporaryPath out)
    (reader : String → Option Config) (files : FileMap) :
    (∀ e after, i.runOn reader files = (.error e, after) →
      (temporaryPath out ≠ out → after.get? out = files.get? out) ∧
      (files.get? (temporaryPath out) = none →
        (after.get? (temporaryPath out)).isSome = i.request.abandons e)) ∧
    (∀ after, i.runOn reader files = (.ok (), after) →
      ∃ image, i.Makes reader files image ∧ after.get? out = some image ∧
        (temporaryPath out ≠ out → after.get? (temporaryPath out) = none)) ∧
    ((i.runOn reader files).1 = .ok () ↔ ∃ image, i.Makes reader files image) ∧
    (temporaryPath out = out → Nameless out) := by
  have ends := Invocation.run_ends writes apart reader files
  refine ⟨fun e after ran => ?_, fun after ran => ?_, ?_, fun same => ?_⟩
  · rw [ran] at ends
    cases ends with
    | failed nothing kept left => exact ⟨kept, left⟩
  · rw [ran] at ends
    cases ends with
    | done made held clean => exact ⟨_, made, held, clean⟩
  · revert ends
    generalize i.runOn reader files = run
    intro ends
    cases ends with
    | failed nothing kept left =>
        constructor
        · intro impossible
          cases impossible
        · rintro ⟨image, made⟩
          exact absurd made (nothing image)
    | done made held clean => exact ⟨fun _ => ⟨_, made⟩, fun _ => rfl⟩
  · exact (temporaryPath_eq_self same).resolve_right unmarked

theorem runOn_default (reader : String → Option Config) (files : FileMap) (src symbols : String) :
    Invocation.runOn ⟨none, none, .pass2 src symbols none none⟩ reader files =
      Action.outcome (pass2 {} src symbols none none) files :=
  outcome_bind_ok ((loadConfig_reads reader _).outcome rfl)

/-- A second pass that stops at its first line, when the temporary file is there already, leaves
an older image as it was. -/
theorem failed_run_keeps_older_image :
    ∃ e after,
      Invocation.runOn ⟨none, none, .pass2 "a.asm" "a.sym" none none⟩ Settings.parse
        [("a.asm", "FROB\n".toUTF8), ("a.sym", ⟨#[0, 0, 0, 0]⟩), ("a.bin", ⟨#[0xF4]⟩)] =
          (.error e, after) ∧
      after.get? "a.bin" = some ⟨#[0xF4]⟩ ∧ after.get? "a.part" = none := by
  let files : FileMap :=
    [("a.asm", "FROB\n".toUTF8), ("a.sym", ⟨#[0, 0, 0, 0]⟩), ("a.bin", ⟨#[0xF4]⟩)]
  have temporary : temporaryPath "a.bin" = "a.part" := by decide
  have expanded : Constants.expand "FROB\n" = .ok "FROB\n" := by decide +kernel
  have text : files.get? "a.asm" = some "FROB\n".toUTF8 := rfl
  have source := FileMap.source_of_text text expanded
  have held : files.get? "a.sym" = some ⟨#[0, 0, 0, 0]⟩ := rfl
  have read : Snapshot.read (ByteArray.mk #[0, 0, 0, 0]).data.toList = .ok ([], []) := by
    decide +kernel
  have refused : passTwo "FROB\n" [] {} .unlimited =
      .error ⟨1, .parse (.unknownMnemonic "FROB")⟩ { symbols := {}, line := 1 } := by
    decide +kernel
  have created : (files.opened "a.sym" (outputPath "a.asm" none)).get?
      (temporaryPath (outputPath "a.asm" none)) = some ByteArray.empty := by
    rw [FileMap.get?_opened, if_pos rfl]
  have ran := (runOn_default Settings.parse files "a.asm" "a.sym").trans
    ((pass2_read source held read).trans
      (outcome_bind_error (encodeImage_refused refused rfl created)))
  have writes : (Request.pass2 "a.asm" "a.sym" none none).output? = some "a.bin" := by decide
  have unmarked : ¬ ".part".toList <:+ "a.bin".toList := by decide
  have apart : ∀ path ∈ (Request.pass2 "a.asm" "a.sym" none none).others,
      path ≠ "a.bin" ∧ path ≠ temporaryPath "a.bin" := by
    rw [temporary]
    simp [Request.others]
  obtain ⟨kept, left⟩ := (failed_run_keeps_output writes unmarked apart _ files).1 _ _ ran
  rw [temporary] at kept left
  have gone := Option.isNone_iff_eq_none.1 (Option.isSome_eq_false_iff.1 (left rfl))
  exact ⟨_, _, ran, kept (by decide), gone⟩

/-- An empty block is refused when the temporary file is there already, and no step removes it. -/
theorem unreadable_block_leaves_temporary :
    (Request.pass2 "a.asm" "a.sym" none none).output? = some "a.bin" ∧
      temporaryPath "a.bin" = "a.part" ∧
      Invocation.runOn ⟨none, none, .pass2 "a.asm" "a.sym" none none⟩ Settings.parse
          [("a.asm", "C SEGMENT\nNOP\n".toUTF8), ("a.sym", ByteArray.empty)] =
        (.error (.transfer (.stream .endOfInput)),
          [("a.part", ByteArray.empty), ("a.asm", "C SEGMENT\nNOP\n".toUTF8)]) := by
  let files : FileMap := [("a.asm", "C SEGMENT\nNOP\n".toUTF8), ("a.sym", ByteArray.empty)]
  have expanded : Constants.expand "C SEGMENT\nNOP\n" = .ok "C SEGMENT\nNOP\n" := by decide +kernel
  have text : files.get? "a.asm" = some "C SEGMENT\nNOP\n".toUTF8 := rfl
  have source := FileMap.source_of_text text expanded
  have held : files.get? "a.sym" = some ByteArray.empty := rfl
  have bad : Snapshot.read ByteArray.empty.data.toList = .error (.stream .endOfInput) := by
    decide +kernel
  have temporary : temporaryPath (outputPath "a.asm" none) = "a.part" := by decide
  have opened : files.opened "a.sym" (outputPath "a.asm" none) =
      [("a.part", ByteArray.empty), ("a.asm", "C SEGMENT\nNOP\n".toUTF8)] := by
    rw [FileMap.opened, temporary]
    rfl
  refine ⟨by decide, by decide, ?_⟩
  rw [runOn_default, pass2_bad_block source held bad, opened]

end Asm86.Command
