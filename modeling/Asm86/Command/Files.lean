/-
# Asm86.Command.Files -- files, as far as the commands need them

The commands read, write, remove and rename whole files.  They are written against
`FileStore`, so that they run on a real file system and, for reasoning and testing, on a
value:

* `FileMap` holds contents by path, and an operation fails only where a file is missing;
* `Folder`, built on it, also tells which paths lead to the same file.
-/

namespace Asm86.Command

set_option autoImplicit false

/-- Why an operation on a file fails. -/
inductive FileFault where
  | missing
  | isFolder
  | notFolder
  | nameTooLong
  | nulInName
  | notText
  | other (text : String)
  deriving DecidableEq, Repr

def FileFault.message : FileFault → String
  | .missing => "No such file or directory (os error 2)"
  | .isFolder => "Is a directory (os error 21)"
  | .notFolder => "Not a directory (os error 20)"
  | .nameTooLong => "File name too long (os error 36)"
  | .nulInName => "file name contained an unexpected NUL byte"
  | .notText => "stream did not contain valid UTF-8"
  | .other text => text

class FileStore (m : Type → Type) where
  /-- A folder can be opened as a file can, so `isFolder` is a fault of the reading and any
  other one of the opening. -/
  read : String → m (Except FileFault ByteArray)
  /-- Create the file or replace what it holds. -/
  write : String → ByteArray → m (Except FileFault Unit)
  remove : String → m (Except FileFault Unit)
  /-- Give a file another name, in place of the file that has it. -/
  rename : String → String → m (Except FileFault Unit)

/-- The text with the given UTF-8 form. -/
def textOf (bytes : ByteArray) : Except FileFault String :=
  match String.fromUTF8? bytes with
  | some text => .ok text
  | none => .error .notText

/-- A change to a store that is a value; one that fails leaves it as it was. -/
def changeStore {σ : Type} (f : σ → Except FileFault σ) : StateM σ (Except FileFault Unit) :=
  fun store =>
    match f store with
    | .ok changed => (.ok (), changed)
    | .error fault => (.error fault, store)

/-! ## Contents by path -/

abbrev FileMap := List (String × ByteArray)

namespace FileMap

def get? (files : FileMap) (path : String) : Option ByteArray := files.lookup path

def erase (files : FileMap) (path : String) : FileMap := files.filter fun file => file.1 != path

def put (files : FileMap) (path : String) (bytes : ByteArray) : FileMap :=
  (path, bytes) :: files.erase path

def read (files : FileMap) (path : String) : Except FileFault ByteArray :=
  match files.get? path with
  | some bytes => .ok bytes
  | none => .error .missing

def remove (files : FileMap) (path : String) : Except FileFault FileMap :=
  match files.get? path with
  | some _ => .ok (files.erase path)
  | none => .error .missing

def rename (files : FileMap) (path target : String) : Except FileFault FileMap :=
  match files.get? path with
  | some bytes => .ok ((files.erase path).put target bytes)
  | none => .error .missing

end FileMap

instance : FileStore (StateM FileMap) where
  read path := fun files => (files.read path, files)
  write path bytes := changeStore fun files => .ok (files.put path bytes)
  remove path := changeStore fun files => files.remove path
  rename path target := changeStore fun files => files.rename path target

end Asm86.Command
