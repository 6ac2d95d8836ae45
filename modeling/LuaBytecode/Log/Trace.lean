import LuaBytecode.Files.Tree
import LuaBytecode.Log.Record
import LuaBytecode.Text.Utf8

/-!
# The trace file

Opening a trace file closes those that are open, and a record is written to every open file whose
threshold it reaches. An open file keeps its own position, so that its records do not move when
something else writes the same file.
-/

namespace LuaBytecode.Log

/-- An open trace file: where it is, where its next line goes, and the least weight it takes. -/
structure TraceFile where
  location : Location
  position : Nat
  threshold : Int
  deriving DecidableEq

/-- Appends a record to a trace file; a record that has no encoding is left out. -/
def TraceFile.write (file : TraceFile) (r : Record) (t : FileTree) : TraceFile × FileTree :=
  match Utf8.encode? r.traceLine with
  | none => (file, t)
  | some line =>
    if r.level.weight < file.threshold then (file, t)
    else
      ({ file with position := file.position + line.length },
        t.writeAt file.location file.position line)

def writeEach (r : Record) : List TraceFile → FileTree → List TraceFile × FileTree
  | [], t => ([], t)
  | file :: rest, t =>
    let (file, t) := file.write r t
    let (rest, t) := writeEach r rest t
    (file :: rest, t)

/-- The files, the threshold that the last opening set (zero for none), the open trace files, and the
lines of the console. -/
structure State where
  files : FileTree
  consoleThreshold : Int := 30
  threshold : Int := 0
  traces : List TraceFile := []
  console : Text := Text.empty

namespace State

/-- The least weight of a record that is not dropped at once. -/
def effectiveThreshold (s : State) : Int :=
  if s.threshold = 0 then s.consoleThreshold else s.threshold

def closeTrace (s : State) : State := { s with traces := [] }

def writeTrace (s : State) (r : Record) : State :=
  let (traces, files) := writeEach r s.traces s.files
  { s with files, traces }

def log (s : State) (r : Record) : State :=
  if r.level.weight < s.effectiveThreshold then s
  else
    let s := s.writeTrace r
    { s with console := s.console ++ r.consoleLine }

def logAll (s : State) (rs : List Record) : State := rs.foldl log s

def onFiles {α : Type} (s : State) (action : FileAction α) : Except FileFault α × State :=
  let r := (action.run s.files)
  (r.1, { s with files := r.2 })

/-- Opens a trace file, after the directories above it. What is open is closed once those exist,
whether or not the new file can be opened. A null character in the name of the file ends the
name. -/
def openTrace (s : State) (p : Path) (threshold : Int) : Except FileFault Unit × State :=
  match s.onFiles (FileTree.ensureDirectories p.parent) with
  | (.error e, s) => (.error e, s)
  | (.ok (), s) =>
    match { s.closeTrace with threshold }.onFiles (FileTree.truncate p.untilNull) with
    | (.error e, s) => (.error e, s)
    | (.ok location, s) => (.ok (), { s with traces := s.traces ++ [⟨location, 0, threshold⟩] })

def openCount (s : State) : Nat := s.traces.length

end State

end LuaBytecode.Log
