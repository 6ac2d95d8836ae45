import LuaBytecode.CommandLine.Run

/-!
# The command

Loads the files that the arguments name into a tree, runs on the tree, and stores what has changed.
-/

open LuaBytecode

namespace LuaBytecode.CommandLine

def helpText : String :=
  "usage: luachunk [flags] input\n\n" ++
    "Decode a Lua 5.1 bytecode chunk and print its prototype tree as JSON\n\nflags: " ++
    String.intercalate " " (Flag.spellings.map (·.1)) ++ "\n"

def terminalText (t : Text) : String :=
  String.ofList (t.codes.map fun c => c.toChar?.getD '\uFFFD')

def pathsTo (p : Path) : List Path :=
  (List.range (p.names.length + 1)).map fun n => { p with names := p.names.take n }

def mentioned (input : Path) (s : Settings) : List Path :=
  (input :: [s.config, s.jsonOut, s.trace].filterMap id).flatMap pathsTo

def locationOf? (p : Path) : Option Location :=
  match p.encode with
  | .ok names => some (names.foldl Location.step (Location.start p))
  | .error _ => none

def nameOf (l : Location) : String :=
  match l with
  | [] => "."
  | first :: rest =>
    let shown (names : List Bytes) : String :=
      terminalText (Text.joinWith "/" (names.map Text.ofBytes))
    if first = Location.root then "/" ++ shown rest else shown l

/-- The host of the command, which comes without a compiler. -/
def commandHost : Host where
  compiler := none
  nesting := 986
  maxWidth := 0x40000000

/-- What there is at a location. -/
def load (l : Location) : IO (Option Node) := do
  try
    if ← (← IO.FS.realPath (nameOf l)).isDir then return some .directory
    else return some (.file (← IO.FS.readBinFile (nameOf l)).toList)
  catch _ => return none

def loadTree (locations : List Location) : IO FileTree :=
  locations.foldlM (fun tree l => do
    match ← load l with
    | some node => return tree.put l node
    | none => return tree) ⟨[]⟩

def storeTree (before after : FileTree) : IO Unit :=
  after.entries.forM fun (l, node) => do
    if before.node? l ≠ some node then
      match node with
      | .directory => IO.FS.createDirAll (nameOf l)
      | .file content => IO.FS.writeBinFile (nameOf l) ⟨content.toArray⟩

end LuaBytecode.CommandLine

open LuaBytecode.CommandLine in
def main (arguments : List String) : IO UInt32 := do
  match parseArguments (arguments.map Text.ofString) with
  | .error e =>
    IO.eprintln (terminalText e.message)
    return 2
  | .ok .help =>
    IO.print helpText
    return 0
  | .ok (.run input settings) =>
    let tree ← loadTree ((mentioned input settings).filterMap locationOf?)
    let outcome := run commandHost input settings tree
    storeTree tree outcome.state.files
    IO.eprint (terminalText outcome.state.console)
    IO.print (terminalText outcome.output)
    match outcome.ending with
    | .exit status => return UInt32.ofNat status
    | .brokenOff f =>
      IO.eprintln (terminalText f.message)
      return 1
