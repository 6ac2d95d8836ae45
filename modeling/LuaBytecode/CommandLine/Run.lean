import LuaBytecode.CommandLine.Invocation
import LuaBytecode.Export
import LuaBytecode.Json.Printer
import LuaBytecode.Session

/-!
# Running the command line

A run resolves its options, reads and decodes the input, and writes the tree as JSON to standard
output or to a file. Failures are logged and give exit status one; a few break the run off. The
trace file is opened before anything is read and closed however the run ends.
-/

namespace LuaBytecode.CommandLine

/-- What a flag was given, as a value: nothing is a list without items. -/
def Given.toJson {α : Type} (encode : α → Json) : Given α → Json
  | .value a => encode a
  | .nothing => .array []

/-- The options that the flags override. -/
def Settings.overrides (s : Settings) : List (Text × Json) :=
  let ifSet (b : Bool) : Json := if b then .bool true else .null
  [(Options.Name.verboseInstructions.text, ifSet s.verboseInstructions),
    (Options.Name.maxDepth.text, s.maxDepth.elim .null (Given.toJson fun n => .int n)),
    (Options.Name.allowTrailingData.text, ifSet s.allowTrailingData),
    (Options.Name.stringErrors.text, s.stringErrors.elim .null (Given.toJson .string))]

def Settings.layout (s : Settings) (maxWidth : Int) : Except Json.WidthFault Json.Layout :=
  match s.indent with
  | .value width => Json.Layout.ofWidth maxWidth width
  | .nothing => .error .missing

/-- What a run depends on besides its arguments and files: the compiler of source text, if there is
one, how deep the values of a config file may nest, and how wide an indentation there is memory
for. -/
structure Host where
  compiler : Option Compiler
  nesting : Nat
  maxWidth : Int

open Session

/-- The options of the config file, or the defaults, with what the flags override. -/
def resolveOptions (nesting : Nat) (s : Settings) : Session Options := do
  let base ← match s.config with
    | some path => loadOptionsWithin nesting path
    | none => pure default
  liftResult ((base.withOverrides s.overrides).mapError Failure.option)

/-- The name of the chunk that the source text in a file is compiled to. -/
def chunkName (input : Path) : Text := "@" ++ input.name

/-- The bytes of the chunk to decode: those in the file, or what the source text in it is compiled
to. -/
def readInput (compiler : Option Compiler) (input : Path) (s : Settings) : Session Bytes := do
  if s.source then
    let text ← liftResult (textOf (← readFile input))
    compileSource compiler (chunkName input) text
  else readChunkFile input

def writeFile (path : Path) (t : Text) : Session Unit := do
  onFiles (FileTree.ensureDirectories path.parent)
  let location ← onFiles (FileTree.truncate path)
  modify fun state =>
    { state with files := state.files.writeAt location 0 ((Utf8.encode? t).getD []) }

/-- A run up to its end; gives what goes to standard output. -/
def execute (host : Host) (input : Path) (s : Settings) : Session Text := do
  let options ← resolveOptions host.nesting s
  let data ← readInput host.compiler input s
  let chunk ← decodeChunk options data
  log .commandLine .info
    ("Decoded " ++ input.toText ++ ": " ++ Text.ofNat chunk.root.walk.length ++ " prototype(s)")
  let layout ← liftResult ((s.layout host.maxWidth).mapError Failure.indent)
  let output := Json.print layout (chunk.toJson s.includeRaw) ++ "\n"
  match s.jsonOut with
  | none => return output
  | some path =>
    writeFile path output
    log .commandLine .info ("Wrote JSON tree to " ++ path.toText)
    return Text.empty

/-- How a run ends: with an exit status, or broken off. -/
inductive Ending where
  | exit (status : Nat)
  | brokenOff (f : Failure)

structure Outcome where
  ending : Ending
  output : Text
  state : Log.State

def finish (input : Path) : Except Failure Text × Log.State → Outcome
  | (.ok output, state) => ⟨.exit 0, output, state.closeTrace⟩
  | (.error f, state) =>
    match f.report? input with
    | some message =>
      ⟨.exit 1, Text.empty, (state.log ⟨.commandLine, .error, message⟩).closeTrace⟩
    | none => ⟨.brokenOff f, Text.empty, state.closeTrace⟩

/-- The level of the console: all records if details are wanted. -/
def consoleThreshold (s : Settings) : Int :=
  if s.verbose then Log.Level.debug.weight else Log.Level.info.weight

def run (host : Host) (input : Path) (s : Settings) (files : FileTree) : Outcome :=
  let state : Log.State := { files, consoleThreshold := consoleThreshold s }
  match s.trace with
  | none => finish input ((execute host input s).run state)
  | some path =>
    match state.openTrace path Log.Level.debug.weight with
    | (.error e, state) => ⟨.brokenOff (.file e), Text.empty, state⟩
    | (.ok (), state) => finish input ((execute host input s).run state)

end LuaBytecode.CommandLine
