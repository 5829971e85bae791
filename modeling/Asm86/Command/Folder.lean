/-
# Asm86.Command.Folder -- a folder of files

A folder whose entries are files, with the paths that lead into it.  Every step of a path
but the last has to come to a folder:

* `.` comes to the folder itself, and `..` to one outside;
* a name that is here comes to a file, which is no folder, and any other name is missing;
* nothing is known by name outside.

So `x.asm`, `./x.asm` and `.//x.asm` are the same file, while `x.asm/.` and `y/../x.asm`
are faults.  A slash after the last name asks for a folder, which no name here is.
-/
import Asm86.Command.Files
import Asm86.Command.Path

namespace Asm86.Command

set_option autoImplicit false

structure Folder where
  files : FileMap

/-- Where a path has come to before its last step. -/
inductive Place where
  | inside
  | outside
  deriving DecidableEq, Repr

/-- What a path leads to. -/
inductive Spot where
  /-- A folder: this one or one outside. -/
  | folder
  /-- A name in this folder, with a slash after it or not. -/
  | entry (name : String) (slash : Bool)
  deriving DecidableEq, Repr

namespace Folder

def isDots (step : String) : Bool := step == "." || step == ".."

/-- The longest name, in bytes. -/
def maxName : Nat := 255

/-- The longest path, in bytes. -/
def maxPath : Nat := 4095

/-- Refuse a name that no file can have. -/
def checkName (name : String) : Except FileFault Unit :=
  if maxName < name.utf8ByteSize then .error .nameTooLong else .ok ()

/-- Where a step comes to that is not the last. -/
def step (f : Folder) (place : Place) (name : String) : Except FileFault Place :=
  if name == "." then .ok place
  else if name == ".." then .ok .outside
  else do
    checkName name
    match place with
    | .inside => if (f.files.get? name).isSome then .error .notFolder else .error .missing
    | .outside => .error .missing

/-- What the steps from a place lead to. -/
def walk (f : Folder) (slash : Bool) : Place → List String → Except FileFault Spot
  | _, [] => .ok .folder
  | place, [name] =>
      if isDots name then .ok .folder
      else
        match place with
        | .inside => .ok (.entry name slash)
        | .outside => .error .missing
  | place, name :: rest => do
      let next ← f.step place name
      f.walk slash next rest

/-- What a path leads to. -/
def locate (f : Folder) (path : String) : Except FileFault Spot :=
  if path.isEmpty then .error .missing
  else if path.toList.contains '\x00' then .error .nulInName
  else if maxPath < path.utf8ByteSize then .error .nameTooLong
  else f.walk (endsInSlash path) (if startsAtTop path then .outside else .inside) (steps path)

/-! ## Operations -/

def read (f : Folder) (path : String) : Except FileFault ByteArray := do
  match ← f.locate path with
  | .folder => .error .isFolder
  | .entry name slash => do
      checkName name
      let bytes ← f.files.read name
      if slash then .error .notFolder else .ok bytes

def write (f : Folder) (path : String) (bytes : ByteArray) : Except FileFault Folder := do
  match ← f.locate path with
  | .folder | .entry _ true => .error .isFolder
  | .entry name false => do
      checkName name
      return ⟨f.files.put name bytes⟩

def remove (f : Folder) (path : String) : Except FileFault Folder := do
  match ← f.locate path with
  | .folder => .error .isFolder
  | .entry name slash => do
      checkName name
      let rest ← f.files.remove name
      if slash then .error .notFolder else return ⟨rest⟩

def rename (f : Folder) (path target : String) : Except FileFault Folder := do
  match ← f.locate path, ← f.locate target with
  | .entry name slash, .entry other otherSlash => do
      checkName name
      let _ ← f.files.read name
      checkName other
      if slash || otherSlash then .error .notFolder
      else return ⟨← f.files.rename name other⟩
  | _, _ => .error .isFolder

end Folder

instance : FileStore (StateM Folder) where
  read path := fun f => (f.read path, f)
  write path bytes := changeStore fun f => f.write path bytes
  remove path := changeStore fun f => f.remove path
  rename path target := changeStore fun f => f.rename path target

end Asm86.Command
