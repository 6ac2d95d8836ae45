import LuaBytecode.Decode
import LuaBytecode.Failure
import LuaBytecode.Log.Trace
import LuaBytecode.Text.LineEnds

/-!
# Sessions

A session reads and writes files and keeps a log. Its steps are those that a run of the command line
is made of; what a step did before it failed stays done.
-/

namespace LuaBytecode

abbrev Session (α : Type) := ExceptT Failure (StateM Log.State) α

namespace Session

def log (source : Log.Source) (level : Log.Level) (message : Text) : Session Unit :=
  modify fun s => s.log ⟨source, level, message⟩

def liftResult {α : Type} : Except Failure α → Session α
  | .ok a => return a
  | .error f => throw f

def onFiles {α : Type} (action : FileAction α) : Session α := do
  let (result, state) := (← get).onFiles action
  set state
  liftResult (result.mapError Failure.file)

def readFile (p : Path) : Session Bytes := do
  liftResult (((← get).files.read p).mapError Failure.file)

def textOf (content : Bytes) : Except Failure Text :=
  match Utf8.decode content with
  | .ok t => .ok ⟨Text.unifyLineEnds t.codes⟩
  | .error m => .error (.text m)

/-- The options that the content of a config file gives if its values nest no deeper than that. -/
def optionsOf (nesting : Nat) (path : Path) (content : Bytes) : Except Failure Options := do
  let text ← textOf content
  match Json.parse nesting text with
  | .ok (.object members) => (Options.ofMembers members).mapError Failure.option
  | .ok _ => .error (.configNotObject path)
  | .error (.integerTooLong digits) => .error (.integerTooLong digits)
  | .error (.nestedTooDeep container) => .error (.nestedTooDeep container)
  | .error e => .error (.configMalformed path e)

def loadOptionsWithin (nesting : Nat) (path : Path) : Session Options := do
  match (← get).files.read path with
  | .error (.system e) => throw (.configUnreadable path e)
  | .error f => throw (.file f)
  | .ok content =>
    let options ← liftResult (optionsOf nesting path content)
    log .options .debug ("Loaded decode options from " ++ path.toText ++ ": " ++ options.display)
    return options

def readChunkFile (path : Path) : Session Bytes := do
  let data ← readFile path
  log .files .info ("Read " ++ Text.ofNat data.length ++ " bytes from " ++ path.toText)
  return data

def bytesOf (t : Text) : Except Failure Bytes :=
  match Utf8.encode? t with
  | some data => .ok data
  | none => .error (.unencodable (Utf8.surrogatesFrom CodePoint.isSurrogate t))

/-- What a chunk is called if its source text has no name. -/
def defaultChunkName : Text := "=(luachunk)"

/-- The chunk that a compiler makes of a text. The name is encoded before the text is, and both once
the compiler has been started. -/
def compile (compiler : Option Compiler) (name text : Text) : Except Failure Bytes :=
  match compiler with
  | none => .error .compilerMissing
  | some compiler => do
    compiler.start.mapError Failure.compilerBroken
    let name ← bytesOf name
    let source ← bytesOf text
    (compiler.compile source name).mapError Failure.ofCompiler

def compileSource (compiler : Option Compiler) (name : Option Text) (text : Text) :
    Session Bytes := do
  let data ← liftResult (compile compiler (labelOr defaultChunkName name) text)
  log .compiler .debug
    ("Compiled " ++ Text.ofNat text.length ++ " characters of Lua source into " ++
      Text.ofNat data.length ++ " bytes")
  return data

def decodeChunk (options : Options) (data : Bytes) : Session Chunk := do
  let (result, notes) := decode options data
  modify fun s => s.logAll (notes.map Log.Record.ofNote)
  liftResult (result.mapError Failure.scan)

end Session

end LuaBytecode
