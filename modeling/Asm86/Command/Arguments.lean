/-
# Asm86.Command.Arguments -- the command line

    [--config FILE] [--origin NUMBER] COMMAND

    build SRC [-o|--output FILE] [--listing FILE] [--symbols-json FILE]
    pass1 SRC --symbols FILE [--symbols-json FILE]
    pass2 SRC --symbols FILE [-o|--output FILE] [--listing FILE]

* `--config` and `--origin` may stand before or after the command; after it they win.
* A value follows its option or is joined to it: `--x v`, `--x=v`, `-o v`, `-ov`, `-o=v`.
  A value that follows does not start with a dash, a lone dash apart.
* An option is given once at most on each side of the command.
* Paths are not empty; the number may be, to be refused later.
* After `--`, which must follow the command, every argument is a path.
-/

namespace Asm86.Command

set_option autoImplicit false

inductive OptionName where
  | config
  | origin
  | output
  | listing
  | symbols
  | symbolsJson
  deriving DecidableEq, Repr

inductive CommandName where
  | build
  | pass1
  | pass2
  deriving DecidableEq, Repr

def OptionName.long : OptionName → String
  | .config => "config"
  | .origin => "origin"
  | .output => "output"
  | .listing => "listing"
  | .symbols => "symbols"
  | .symbolsJson => "symbols-json"

/-- The options that may stand before the command. -/
def globalOptions : List OptionName := [.config, .origin]

/-- The options that may stand after a command. -/
def CommandName.options : CommandName → List OptionName
  | .build => globalOptions ++ [.output, .listing, .symbolsJson]
  | .pass1 => globalOptions ++ [.symbols, .symbolsJson]
  | .pass2 => globalOptions ++ [.symbols, .output, .listing]

def CommandName.ofText? (s : String) : Option CommandName :=
  if s == "build" then some .build
  else if s == "pass1" then some .pass1
  else if s == "pass2" then some .pass2
  else none

/-- A command with its paths. -/
inductive Request where
  | build (src : String) (output listing symbolsJson : Option String)
  | pass1 (src symbols : String) (symbolsJson : Option String)
  | pass2 (src symbols : String) (output listing : Option String)
  deriving DecidableEq, Repr

structure Invocation where
  config : Option String
  origin : Option String
  request : Request
  deriving DecidableEq, Repr

/-! ## One argument -/

/-- What an argument is by its form, when the given options may stand here. -/
inductive Argument where
  | plain
  | option (name : OptionName) (value : Option String)
  | unknown
  deriving DecidableEq, Repr

/-- It starts with a dash and is more than one. -/
def isDashed (arg : String) : Bool :=
  match arg.toList with
  | '-' :: _ :: _ => true
  | _ => false

/-- `name` or `name=value` after two dashes. -/
def longOption (allowed : List OptionName) (body : List Char) : Argument :=
  let name := String.ofList (body.takeWhile fun c => c != '=')
  match allowed.find? fun o => o.long == name, body.dropWhile fun c => c != '=' with
  | some o, _ :: value => .option o (some (String.ofList value))
  | some o, [] => .option o none
  | none, _ => .unknown

/-- `o`, `ovalue` or `o=value` after one dash. -/
def shortOption (allowed : List OptionName) : List Char → Argument
  | 'o' :: value =>
      if allowed.contains .output then
        match value with
        | [] => .option .output none
        | '=' :: rest => .option .output (some (String.ofList rest))
        | rest => .option .output (some (String.ofList rest))
      else .unknown
  | _ => .unknown

def Argument.ofText (allowed : List OptionName) (arg : String) : Argument :=
  match arg.toList with
  | '-' :: '-' :: body => longOption allowed body
  | '-' :: c :: body => shortOption allowed (c :: body)
  | _ => .plain

/-! ## All arguments -/

/-- What has been read of a command line. -/
structure Draft where
  command : Option CommandName := none
  /-- The options before the command. -/
  early : List (OptionName × String) := []
  /-- The options after it. -/
  late : List (OptionName × String) := []
  sources : List String := []

namespace Draft

def allowed (d : Draft) : List OptionName :=
  match d.command with
  | none => globalOptions
  | some c => c.options

def addOption? (d : Draft) (name : OptionName) (value : String) : Option Draft :=
  if value.isEmpty && name != .origin then none
  else if d.command.isNone then
    if (d.early.lookup name).isSome then none
    else some { d with early := (name, value) :: d.early }
  else if (d.late.lookup name).isSome then none
  else some { d with late := (name, value) :: d.late }

/-- The command itself, or a source of it. -/
def addPlain? (d : Draft) (arg : String) : Option Draft :=
  match d.command with
  | none => (CommandName.ofText? arg).map fun c => { d with command := some c }
  | some _ =>
      if arg.isEmpty || !d.sources.isEmpty then none else some { d with sources := [arg] }

def read? (d : Draft) : List String → Option Draft
  | [] => some d
  | arg :: rest =>
      if arg == "--" then
        if d.command.isSome then rest.foldlM addPlain? d else none
      else
        match Argument.ofText d.allowed arg, rest with
        | .plain, rest => (d.addPlain? arg).bind fun d => d.read? rest
        | .option name (some value), rest => (d.addOption? name value).bind fun d => d.read? rest
        | .option name none, value :: rest =>
            if isDashed value then none
            else (d.addOption? name value).bind fun d => d.read? rest
        | .option _ none, [] => none
        | .unknown, _ => none

def value? (d : Draft) (name : OptionName) : Option String :=
  (d.late.lookup name).or (d.early.lookup name)

def request? (d : Draft) : Option Request :=
  match d.command, d.sources with
  | some .build, [src] =>
      some (.build src (d.value? .output) (d.value? .listing) (d.value? .symbolsJson))
  | some .pass1, [src] =>
      (d.value? .symbols).map fun symbols => .pass1 src symbols (d.value? .symbolsJson)
  | some .pass2, [src] =>
      (d.value? .symbols).map fun symbols =>
        .pass2 src symbols (d.value? .output) (d.value? .listing)
  | _, _ => none

end Draft

/-- What the arguments ask for; none when they do not follow the form above. -/
def Invocation.parse (args : List String) : Option Invocation := do
  let d ← Draft.read? {} args
  let request ← d.request?
  return ⟨d.value? .config, d.value? .origin, request⟩

end Asm86.Command
