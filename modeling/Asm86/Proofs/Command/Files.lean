/-
# Asm86.Proofs.Command.Files -- what actions do to files held by path

An action on a `FileMap` has an outcome: its result and the files that it leaves.  Actions in
sequence pass the files on, up to the first that fails (`outcome_bind_ok`,
`outcome_bind_error`).

Everything that a command learns before it writes is read: the settings, the source and the
block of symbols.  An action that only `Reads` leaves the files alone, and its result is a
function of them.  How the text of a settings file is read makes no difference to that, so the
reader is any function here.
-/
import Asm86.Command.Run

namespace Asm86.Command

open Asm86.Source
open Asm86.Assembly

set_option autoImplicit false

variable {α β ε : Type}

/-! ## Contents by path -/

namespace FileMap

theorem get?_cons (files : FileMap) (name other : String) (bytes : ByteArray) :
    FileMap.get? ((name, bytes) :: files) other =
      if other = name then some bytes else files.get? other := by
  rw [get?, List.lookup_cons]
  by_cases same : other = name
  · rw [beq_iff_eq.2 same, if_pos same]
  · rw [beq_eq_false_iff_ne.2 same, if_neg same]
    rfl

theorem get?_erase (files : FileMap) (path other : String) :
    (files.erase path).get? other = if other = path then none else files.get? other := by
  induction files with
  | nil => exact (ite_self _).symm
  | cons file files ih =>
      obtain ⟨name, bytes⟩ := file
      rw [get?_cons]
      by_cases dropped : name = path
      · have gone : FileMap.erase ((name, bytes) :: files) path = FileMap.erase files path :=
          List.filter_cons_of_neg (by simp [dropped])
        rw [gone, ih, dropped]
        split <;> rfl
      · have kept : FileMap.erase ((name, bytes) :: files) path =
            (name, bytes) :: FileMap.erase files path :=
          List.filter_cons_of_pos (by simp [dropped])
        rw [kept, get?_cons, ih]
        by_cases same : other = name
        · rw [if_pos same, if_pos same, if_neg (same ▸ dropped)]
        · rw [if_neg same, if_neg same]

theorem get?_put (files : FileMap) (path other : String) (bytes : ByteArray) :
    (files.put path bytes).get? other = if other = path then some bytes else files.get? other := by
  rw [put, get?_cons, get?_erase]
  split <;> rfl

end FileMap

/-! ## Outcomes -/

/-- An action on files held by path. -/
abbrev Action (α : Type) := ExceptT CommandError (StateM FileMap) α

/-- What an action results in, and the files that it leaves. -/
def Action.outcome (x : Action α) (files : FileMap) : Except CommandError α × FileMap :=
  Id.run (x.run.run files)

section Outcomes

variable {files after : FileMap}

/-- The second action goes on with the result and the files of the first. -/
theorem outcome_bind (x : Action α) (f : α → Action β) (files : FileMap) :
    (x >>= f).outcome files = ExceptT.bindCont f (x.outcome files).1 (x.outcome files).2 := rfl

theorem outcome_bind_ok {x : Action α} {f : α → Action β} {v : α}
    (first : x.outcome files = (.ok v, after)) : (x >>= f).outcome files = (f v).outcome after := by
  rw [outcome_bind, first]
  rfl

theorem outcome_bind_error {x : Action α} {f : α → Action β} {e : CommandError}
    (first : x.outcome files = (.error e, after)) : (x >>= f).outcome files = (.error e, after) := by
  rw [outcome_bind, first]
  rfl

theorem outcome_ofResult (wrap : ε → CommandError) (x : Except ε α) :
    Action.outcome (ofResult wrap x) files = (x.mapError wrap, files) := by
  cases x <;> rfl

/-- An operation of the store as an action; its fault is a result that later steps look at. -/
theorem outcome_lift (op : StateM FileMap α) :
    Action.outcome (liftM op) files = (.ok (op.run files).1, (op.run files).2) := rfl

theorem outcome_onFile (action : FileAction) (path : String)
    (op : StateM FileMap (Except FileFault α)) :
    Action.outcome (onFile action path op) files =
      ((op.run files).1.mapError (.file action path), (op.run files).2) := by
  rw [onFile, outcome_bind_ok (outcome_lift op)]
  cases (op.run files).1 <;> rfl

theorem outcome_read (action : FileAction) (path : String) :
    Action.outcome (onFile action path (FileStore.read path)) files =
      ((files.read path).mapError (.file action path), files) :=
  outcome_onFile action path _

theorem outcome_write (action : FileAction) (path : String) (bytes : ByteArray) :
    Action.outcome (onFile action path (FileStore.write path bytes)) files =
      (.ok (), files.put path bytes) :=
  outcome_onFile action path _

theorem run_changeStore {f : FileMap → Except FileFault FileMap} (worked : f files = .ok after) :
    (changeStore f).run files = (.ok (), after) := by
  change changeStore f files = _
  rw [changeStore, worked]

theorem run_read (path : String) :
    (FileStore.read path : StateM FileMap _).run files = (files.read path, files) := rfl

theorem run_remove {path : String} {bytes : ByteArray} (held : files.get? path = some bytes) :
    (FileStore.remove path : StateM FileMap _).run files = (.ok (), files.erase path) := by
  have removed : files.remove path = .ok (files.erase path) := by rw [FileMap.remove, held]
  exact run_changeStore removed

theorem outcome_remove {action : FileAction} {path : String} {bytes : ByteArray}
    (held : files.get? path = some bytes) :
    Action.outcome (onFile action path (FileStore.remove path)) files =
      (.ok (), files.erase path) := by
  rw [outcome_onFile, run_remove held]
  rfl

theorem outcome_rename {action : FileAction} {shown path target : String} {bytes : ByteArray}
    (held : files.get? path = some bytes) :
    Action.outcome (onFile action shown (FileStore.rename path target)) files =
      (.ok (), (files.erase path).put target bytes) := by
  have renamed : files.rename path target = .ok ((files.erase path).put target bytes) := by
    rw [FileMap.rename, held]
  have done : (FileStore.rename path target : StateM FileMap _).run files =
      (.ok (), (files.erase path).put target bytes) := run_changeStore renamed
  rw [outcome_onFile, done]
  rfl

end Outcomes

/-! ## Reading -/

/-- The action changes nothing, and its result is a function of the files. -/
def Reads (x : Action α) (result : FileMap → Except CommandError α) : Prop :=
  ∀ files, x.outcome files = (result files, files)

namespace Reads

theorem outcome {x : Action α} {found : FileMap → Except CommandError α} (reads : Reads x found)
    {files : FileMap} {result : Except CommandError α} (yields : found files = result) :
    x.outcome files = (result, files) := by
  rw [← yields]
  exact reads files

theorem pure (v : α) : Reads (Pure.pure v) fun _ => .ok v := fun _ => rfl

theorem ofResult {wrap : ε → CommandError} {x : Except ε α} :
    Reads (ofResult wrap x) fun _ => x.mapError wrap := fun _ => outcome_ofResult wrap x

theorem bind {x : Action α} {f : α → Action β} {found : FileMap → Except CommandError α}
    {later : α → FileMap → Except CommandError β} (first : Reads x found)
    (second : ∀ v, Reads (f v) (later v)) :
    Reads (x >>= f) fun files => found files >>= fun v => later v files := by
  intro files
  have start := first files
  change _ = (found files >>= fun v => later v files, files)
  cases result : found files with
  | error e =>
      rw [result] at start
      exact outcome_bind_error start
  | ok v =>
      rw [result] at start
      rw [outcome_bind_ok start]
      exact second v files

end Reads

namespace FileMap

/-- The text in a file. -/
def text (files : FileMap) (path : String) : Except CommandError String := do
  let bytes ← (files.read path).mapError (.file .reading path)
  (textOf bytes).mapError (.file .reading path)

/-- The settings in a file, or the default ones. -/
def settings (files : FileMap) (reader : String → Option Config) :
    Option String → Except CommandError Config
  | none => .ok {}
  | some path => do
      let text ← files.text path
      (reader text).elim (.error (.settings path)) .ok

/-- The settings that an invocation asks for. -/
def config (files : FileMap) (reader : String → Option Config) (i : Invocation) :
    Except CommandError Config := do
  let cfg ← files.settings reader i.config
  i.origin.elim (.ok cfg) fun text => (parseOrigin text).map fun origin => { cfg with origin }

/-- The source in a file, with its constants expanded. -/
def source (files : FileMap) (src : String) : Except CommandError String := do
  let text ← files.text src
  (Constants.expand text).mapError (.constants src)

end FileMap

theorem textOf_toUTF8 (s : String) : textOf s.toUTF8 = .ok s := by
  simp only [textOf, String.fromUTF8?, String.toUTF8_eq_toByteArray, dif_pos s.isValidUTF8]
  rfl

theorem FileMap.source_of_text {files : FileMap} {src text expanded : String}
    (held : files.get? src = some text.toUTF8) (expands : Constants.expand text = .ok expanded) :
    files.source src = .ok expanded := by
  have found : files.text src = .ok text := by
    rw [FileMap.text, read, held]
    exact congrArg (Except.mapError _) (textOf_toUTF8 text)
  rw [source, found]
  exact congrArg (Except.mapError _) expands

theorem readText_reads (path : String) : Reads (readText path) fun files => files.text path :=
  .bind (fun _ => outcome_read .reading path) fun _ => .ofResult

theorem loadSettings_reads (reader : String → Option Config) (path : Option String) :
    Reads (loadSettings reader path) fun files => files.settings reader path := by
  cases path with
  | none => exact .pure _
  | some path =>
      refine .bind (readText_reads path) fun text => ?_
      cases reader text with
      | none => exact fun _ => rfl
      | some cfg => exact .pure _

theorem loadConfig_reads (reader : String → Option Config) (i : Invocation) :
    Reads (loadConfig reader i) fun files => files.config reader i := by
  refine .bind (loadSettings_reads reader i.config) fun cfg => ?_
  cases i.origin with
  | none => exact .pure _
  | some text =>
      simp only [Option.elim_some]
      cases parseOrigin text <;> exact fun _ => rfl

theorem readSource_reads (src : String) : Reads (readSource src) fun files => files.source src :=
  .bind (readText_reads src) fun _ => .ofResult

end Asm86.Command
