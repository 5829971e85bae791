/-
# Asm86.Command.Expand -- expanding constants as a command of its own

    SRC DEST

writes the expanded source `SRC` to `DEST`.  If a definition cannot be taken, `DEST` is
removed, so that nothing can mistake an earlier result for this one.

The outcome is an exit code, with a report on standard error for the code 1.  Arguments
of another form give the code 2, a request for help or for the version the code 0.

* Arguments are taken from left to right, and the first one that is a request or does not
  fit decides.
* `--help` and `--version` stand alone.  Letters after one dash are taken one by one, so a
  request that comes first in such a group leaves the rest of it unread.
* A path is not empty.  After `--` every argument is a path.
-/
import Asm86.Command.Run

namespace Asm86.Command

open Asm86.Source

set_option autoImplicit false

/-- What the arguments ask for. -/
inductive ExpandRequest where
  | expand (src dest : String)
  | inform
  | usage
  deriving DecidableEq, Repr

namespace ExpandRequest

/-- A request for help or for the version. -/
def isInformation (arg : String) : Bool :=
  match arg.toList with
  | '-' :: '-' :: _ => arg == "--help" || arg == "--version"
  | '-' :: letter :: _ => letter == 'h' || letter == 'V'
  | _ => false

def ofPaths : List String → ExpandRequest
  | [src, dest] => if src.isEmpty || dest.isEmpty then .usage else .expand src dest
  | _ => .usage

/-- Read the arguments after the paths found so far. -/
def read (paths : List String) : List String → ExpandRequest
  | [] => ofPaths paths
  | arg :: rest =>
      if arg == "--" then ofPaths (paths ++ rest)
      else if isDashed arg then if isInformation arg then .inform else .usage
      else if arg.isEmpty || 2 ≤ paths.length then .usage
      else read (paths ++ [arg]) rest

def parse (args : List String) : ExpandRequest := read [] args

end ExpandRequest

structure ExitReport where
  code : Nat
  report : Option String
  deriving DecidableEq, Repr

/-- A fault and its cause as a report. -/
def failureReport (outer cause : String) : String :=
  "Error: " ++ outer ++ "\n\nCaused by:\n    " ++ cause ++ "\n"

/-- The report of a fault of this command. -/
def CommandError.report : CommandError → String
  | .file action path fault => failureReport (action.text ++ path) fault.message
  | .constants src e => failureReport src e.message
  | other => "Error: " ++ other.message ++ "\n"

section Steps

variable {m : Type → Type} [Monad m] [FileStore m]

def expandFile (src dest : String) : ExceptT CommandError m Unit := do
  let text ← readText src
  match Constants.expand text with
  | .ok expanded => writeText dest expanded
  | .error e => do
      let _ ← (FileStore.remove dest : m (Except FileFault Unit))
      throw (.constants src e)

/-- Carry out what the arguments ask for. -/
def expandCommand (args : List String) : m ExitReport := do
  match ExpandRequest.parse args with
  | .usage => return ⟨2, none⟩
  | .inform => return ⟨0, none⟩
  | .expand src dest =>
      match ← (expandFile src dest).run with
      | .ok _ => return ⟨0, none⟩
      | .error e => return ⟨1, some e.report⟩

end Steps

end Asm86.Command
