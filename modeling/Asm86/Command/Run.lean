/-
# Asm86.Command.Run -- carrying out a command

* `build` expands the constants of a source, assembles it and writes the image.
* `pass1` runs the first pass and writes the symbols as a block.
* `pass2` takes such a block, which it removes, and runs the second pass.

An image is written under a temporary name, with the extension `part`, and then renamed,
so a source that fails to assemble leaves no partial image behind.  `pass2` creates the
temporary file before it looks at what it read from the block.  An address past 32 bits ends
the program on the spot: what `pass2` has written by then stays under the temporary name.
-/
import Asm86.Assembly.Pass
import Asm86.Command.Arguments
import Asm86.Command.Files
import Asm86.Command.Path
import Asm86.Command.Settings
import Asm86.Source.Constants
import Asm86.Symbols.Export
import Asm86.Text.Numeral

namespace Asm86.Command

open Asm86.Source
open Asm86.Symbols
open Asm86.Output
open Asm86.Assembly

set_option autoImplicit false

/-- What was being done to a file. -/
inductive FileAction where
  | reading
  | writing
  | creating
  | opening
  | removing
  | renamingTo
  deriving DecidableEq, Repr

def FileAction.text : FileAction → String
  | .reading => "reading "
  | .writing => "writing "
  | .creating => "creating "
  | .opening => "opening "
  | .removing => "removing "
  | .renamingTo => "renaming to "

inductive CommandError where
  | file (action : FileAction) (path : String) (fault : FileFault)
  | settings (path : String)
  | badOrigin (text : String)
  | constants (src : String) (e : ConstantError)
  | assembly (src : String) (e : LineError)
  | transfer (e : TransferError)
  deriving DecidableEq, Repr

/-- A fault and its cause, if it has one that its own text does not end. -/
def transferChain (e : TransferError) : String :=
  match e with
  | .stream fault => e.message ++ ": " ++ fault.message
  | _ => e.message

/-- A fault on a line: the line, the fault again, and then the fault's cause. -/
def assemblyChain (e : LineError) : String :=
  let inner :=
    match e.error with
    | .transfer t => transferChain t
    | .sink fault => e.error.message ++ ": " ++ fault.message
    | other => other.message
  e.message ++ ": " ++ inner

def CommandError.message : CommandError → String
  | .file action path fault => action.text ++ path ++ ": " ++ fault.message
  | .settings path => "parsing " ++ path ++ ": <json>"
  | .badOrigin text => "bad origin: " ++ text
  | .constants src e => src ++ ": " ++ e.message
  | .assembly src e => src ++ ": " ++ assemblyChain e
  | .transfer e => transferChain e

section Steps

variable {m : Type → Type} [Monad m] [FileStore m]

/-- A file operation whose fault is reported with what was being done. -/
def onFile {α : Type} (action : FileAction) (path : String) (op : m (Except FileFault α)) :
    ExceptT CommandError m α := do
  match ← (op : m (Except FileFault α)) with
  | .ok v => return v
  | .error fault => throw (.file action path fault)

def ofResult {ε α : Type} (wrap : ε → CommandError) (x : Except ε α) :
    ExceptT CommandError m α :=
  match x with
  | .ok v => pure v
  | .error e => throw (wrap e)

def readText (path : String) : ExceptT CommandError m String := do
  let bytes ← onFile .reading path (FileStore.read path)
  ofResult (.file .reading path) (textOf bytes)

def writeText (path text : String) : ExceptT CommandError m Unit :=
  onFile .writing path (FileStore.write path text.toUTF8)

/-- The text of an origin as an address. -/
def parseOrigin (text : String) : Except CommandError UInt32 :=
  match Text.literal? text.toList with
  | some v =>
      if 0 ≤ v ∧ v < 4294967296 then .ok (UInt32.ofNat v.toNat) else .error (.badOrigin text)
  | none => .error (.badOrigin text)

/-- The settings in the given file, or the default ones.  The text of the file is left to a
reader, which has nothing to say to texts of another form. -/
def loadSettings (reader : String → Option Config) : Option String → ExceptT CommandError m Config
  | none => return {}
  | some path => do
      let text ← readText path
      match reader text with
      | some cfg => return cfg
      | none => throw (.settings path)

def loadConfig (reader : String → Option Config) (i : Invocation) :
    ExceptT CommandError m Config := do
  let cfg ← loadSettings reader i.config
  match i.origin with
  | none => return cfg
  | some text =>
      let origin ← ofResult id (parseOrigin text)
      return { cfg with origin }

/-- A source with its constants expanded. -/
def readSource (src : String) : ExceptT CommandError m String := do
  let text ← readText src
  ofResult (.constants src) (Constants.expand text)

def outputPath (src : String) (output : Option String) : String :=
  output.getD (withExtension src "bin")

def temporaryPath (path : String) : String := withExtension path "part"

def writeImage (path : String) (bytes : ByteArray) : ExceptT CommandError m Unit := do
  let temporary := temporaryPath path
  onFile .writing temporary (FileStore.write temporary bytes)
  onFile .renamingTo path (FileStore.rename temporary path)

def writeListing (listing : Option String) (rows : List Row) : ExceptT CommandError m Unit :=
  match listing with
  | some path => writeText path (renderListing rows)
  | none => pure ()

def writeSymbols (symbolsJson : Option String) (s : Snapshot) : ExceptT CommandError m Unit :=
  match symbolsJson with
  | some path => writeText path s.toJson
  | none => pure ()

/-! ## The commands -/

/-- A listing is also kept when a file is named for it. -/
def withListing (cfg : Config) (listing : Option String) : Config :=
  { cfg with listing := cfg.listing || listing.isSome }

def build (cfg : Config) (src : String) (output listing symbolsJson : Option String) :
    ExceptT CommandError m Unit := do
  let text ← readSource src
  let done ← ofResult (.assembly src) (assemble text (withListing cfg listing))
  writeImage (outputPath src output) ⟨done.image.bytes⟩
  writeListing listing done.listing
  writeSymbols symbolsJson done.symbols

def pass1 (cfg : Config) (src symbols : String) (symbolsJson : Option String) :
    ExceptT CommandError m Unit := do
  let text ← readSource src
  let snapshot ← ofResult (.assembly src) (passOne text cfg)
  onFile .creating symbols (FileStore.write symbols ByteArray.empty)
  let block ← ofResult .transfer snapshot.toBytes
  onFile .writing symbols (FileStore.write symbols ⟨block.toArray⟩)
  writeSymbols symbolsJson snapshot

/-- What a symbol block holds, which is removed.  A folder opens as a file does, but cannot
be removed as one. -/
def takeBlock (symbols : String) : ExceptT CommandError m ByteArray := do
  match ← (FileStore.read symbols : m (Except FileFault ByteArray)) with
  | .error .isFolder => throw (.file .removing symbols .isFolder)
  | .error fault => throw (.file .opening symbols fault)
  | .ok block =>
      onFile .removing symbols (FileStore.remove symbols)
      return block

/-- An address past 32 bits is not reported but ends the program. -/
def endsProgram (e : LineError) : Bool := e.error == .symbol .addressOverflow

/-- Run the second pass into the temporary file of a path, and rename it when it is whole. -/
def encodeImage (cfg : Config) (src text path : String) (snapshot : Snapshot) :
    ExceptT CommandError m (List Row) := do
  let temporary := temporaryPath path
  match passTwo text snapshot cfg .unlimited with
  | .error e a => do
      let _ ← (if endsProgram e then FileStore.write temporary ⟨a.sink.bytes⟩
        else FileStore.remove temporary : m (Except FileFault Unit))
      throw (.assembly src e)
  | .ok _ a => do
      writeImage path ⟨a.sink.bytes⟩
      return a.listing

def pass2 (cfg : Config) (src symbols : String) (output listing : Option String) :
    ExceptT CommandError m Unit := do
  let text ← readSource src
  let block ← takeBlock symbols
  let path := outputPath src output
  onFile .creating (temporaryPath path) (FileStore.write (temporaryPath path) ByteArray.empty)
  let (snapshot, _) ← ofResult .transfer (Snapshot.read block.data.toList)
  let rows ← encodeImage (withListing cfg listing) src text path snapshot
  writeListing listing rows

/-- Carry out what a command line asks for, given a reader of settings. -/
def Invocation.runWith (reader : String → Option Config) (i : Invocation) :
    ExceptT CommandError m Unit := do
  let cfg ← loadConfig reader i
  match i.request with
  | .build src output listing symbolsJson => build cfg src output listing symbolsJson
  | .pass1 src symbols symbolsJson => pass1 cfg src symbols symbolsJson
  | .pass2 src symbols output listing => pass2 cfg src symbols output listing

/-- Carry out what a command line asks for, with settings in JSON. -/
def Invocation.run (i : Invocation) : ExceptT CommandError m Unit := i.runWith Settings.parse

end Steps

end Asm86.Command
