/-
# Asm86.Main -- the program

Runs the commands on the real file system: `expand SRC DEST` expands constants, any other
command line is one of the assembler.  Faults go to standard error, with the exit code 1,
or 2 when the arguments have another form.
-/
import Asm86.Command.Expand

namespace Asm86.Program

open Asm86.Command

set_option autoImplicit false

/-- A fault of the system has one number, which some of its calls give negated. -/
def hasNumber (code number : UInt32) : Bool := code == number || code == 0 - number

def fileFault : IO.Error → FileFault
  | .noFileOrDirectory .. => .missing
  | e@(.inappropriateType _ code _) =>
      if hasNumber code 20 then .notFolder
      else if hasNumber code 21 then .isFolder
      else .other (toString e)
  | e@(.invalidArgument _ code _) =>
      if hasNumber code 36 then .nameTooLong else .other (toString e)
  | e => .other (toString e)

/-- The result of an action, or the fault it ended in. -/
def attempt {α : Type} (action : IO α) : IO (Except FileFault α) := do
  try
    return .ok (← action)
  catch e => return .error (fileFault e)

instance : FileStore IO where
  read path := attempt (IO.FS.readBinFile path)
  write path bytes := attempt (IO.FS.writeBinFile path bytes)
  remove path := attempt (IO.FS.removeFile path)
  rename path target := attempt (IO.FS.rename path target)

def usage : String :=
  "usage: asm86 [--config FILE] [--origin NUMBER] COMMAND\n" ++
  "  build SRC [-o FILE] [--listing FILE] [--symbols-json FILE]\n" ++
  "  pass1 SRC --symbols FILE [--symbols-json FILE]\n" ++
  "  pass2 SRC --symbols FILE [-o FILE] [--listing FILE]\n" ++
  "  expand SRC DEST"

def runExpand (args : List String) : IO UInt32 := do
  let outcome : ExitReport ← expandCommand args
  match outcome.report with
  | some report => IO.eprint report
  | none => if outcome.code == 2 then IO.eprintln usage
  return UInt32.ofNat outcome.code

def runAssembler (args : List String) : IO UInt32 := do
  match Invocation.parse args with
  | none =>
      IO.eprintln usage
      return 2
  | some invocation =>
      match ← (invocation.run : ExceptT CommandError IO Unit).run with
      | .ok _ => return 0
      | .error e =>
          IO.eprintln e.message
          return 1

def run (args : List String) : IO UInt32 :=
  match args with
  | "expand" :: rest => runExpand rest
  | _ => runAssembler args

end Asm86.Program

def main (args : List String) : IO UInt32 := Asm86.Program.run args
