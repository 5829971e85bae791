/-
# Asm86.Command.Path -- the parts of a path

Slashes divide a path into steps; several together count as one.  The step `.` stays where
it is, the step `..` goes to the folder above, and any other step goes to what has that
name.  A path that starts with a slash starts at the topmost folder.

* The name of a path is its last step, where slashes and steps `.` that follow another
  step do not count.  A path that ends in `..`, or in nothing else than `.`, has no name.
* The extension of a name is what follows its last dot; a dot at the very start of the
  name begins no extension.
-/

namespace Asm86.Command

set_option autoImplicit false

/-! ## Steps -/

/-- What stands between the slashes of a path, empty stretches included. -/
def stretches : List Char → List (List Char)
  | [] => [[]]
  | c :: rest =>
      if c == '/' then [] :: stretches rest
      else
        match stretches rest with
        | first :: others => (c :: first) :: others
        | [] => [[c]]

/-- The steps of a path, in order. -/
def steps (path : String) : List String :=
  ((stretches path.toList).filter fun s => !s.isEmpty).map String.ofList

def startsAtTop (path : String) : Bool := path.toList.head? == some '/'

def endsInSlash (path : String) : Bool := path.toList.getLast? == some '/'

/-! ## Extensions -/

/-- A path, read backwards, without the slashes and the steps `.` that follow its name. -/
def dropTail : List Char → List Char
  | '/' :: before => dropTail before
  | '.' :: '/' :: before => dropTail before
  | body => body

/-- A name without its extension. -/
def fileStem (name : List Char) : List Char :=
  match name.reverse.dropWhile fun c => c != '.' with
  | _ :: before => if before.isEmpty then name else before.reverse
  | [] => name

/-- A path with `extension` in place of the one it has, up to its name; a path without a
name stays.  The extension there is goes first, and if the path that this leaves ends in
`..`, it has no name any more and nothing is added. -/
def withExtension (path extension : String) : String :=
  let body := (dropTail path.toList.reverse).reverse
  let name := (body.reverse.takeWhile fun c => c != '/').reverse
  let folder := body.take (body.length - name.length)
  let stem := fileStem name
  if name.isEmpty || name == ['.'] || name == ['.', '.'] then path
  else if stem == ['.'] && body == path.toList then String.ofList (folder ++ ['.', '.'])
  else String.ofList (folder ++ stem ++ '.' :: extension.toList)

end Asm86.Command
