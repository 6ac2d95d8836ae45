import LuaBytecode.Bytes
import LuaBytecode.Files.Path
import LuaBytecode.Text.Quoted

/-!
# A tree of files

The files and directories below a working directory, as far as they are known, and what the
operations of a file system do to them. Directories above the working directory and the root of
absolute paths exist too, but nothing is known to lie in them. Names and whole paths have a greatest
length in bytes.
-/

namespace LuaBytecode

inductive FileErrorKind where
  | notFound
  | exists
  | notDirectory
  | isDirectory
  | nameTooLong
  deriving DecidableEq

/-- An operation that a file system refused and the path that it was given. -/
structure FileError where
  kind : FileErrorKind
  path : Path
  deriving DecidableEq

namespace FileErrorKind

def number : FileErrorKind → Nat
  | .notFound => 2
  | .exists => 17
  | .notDirectory => 20
  | .isDirectory => 21
  | .nameTooLong => 36

def description : FileErrorKind → Text
  | .notFound => "No such file or directory"
  | .exists => "File exists"
  | .notDirectory => "Not a directory"
  | .isDirectory => "Is a directory"
  | .nameTooLong => "File name too long"

end FileErrorKind

def FileError.message (e : FileError) : Text :=
  "[Errno " ++ Text.ofNat e.kind.number ++ "] " ++ e.kind.description ++ ": " ++
    e.path.toText.quoted

/-- Why an operation failed: the file system refused it, or was not even asked. -/
inductive FileFault where
  | system (e : FileError)
  | path (f : PathFault)
  deriving DecidableEq

namespace FileFault

def message : FileFault → Text
  | .system e => e.message
  | .path f => f.message

def isNotFound : FileFault → Bool
  | .system e => e.kind = .notFound
  | .path _ => false

end FileFault

inductive Node where
  | file (content : Bytes)
  | directory
  deriving DecidableEq

/-- The names from the working directory to a file, without detours: names that lead upwards or the
root come first. -/
abbrev Location := List Bytes

namespace Location

def up : Bytes := [0x2E, 0x2E]

def root : Bytes := [0x2F]

def isOutside (l : Location) : Bool := l.all fun name => name = up || name = root

def step (l : Location) (name : Bytes) : Location :=
  if name ≠ up then l ++ [name]
  else if l.head? = some root ∧ l.isOutside then l
  else if l.isOutside then l ++ [up]
  else l.dropLast

def start (p : Path) : Location := if p.root.isEmpty then [] else [root]

end Location

structure FileTree where
  entries : List (Location × Node)

/-- An operation on a tree; what it did before it failed stays done. -/
abbrev FileAction (α : Type) := ExceptT FileFault (StateM FileTree) α

namespace FileTree

def node? (t : FileTree) (l : Location) : Option Node :=
  if l.isOutside then some .directory else (t.entries.find? (·.1 = l)).map (·.2)

def put (t : FileTree) (l : Location) (n : Node) : FileTree :=
  if t.entries.any (·.1 = l) then
    ⟨t.entries.map fun entry => if entry.1 = l then (l, n) else entry⟩
  else ⟨t.entries ++ [(l, n)]⟩

def maxNameLength : Nat := 255

def maxPathLength : Nat := 4095

/-- Follows names from a location; every location but the last has to be a directory. -/
def follow (t : FileTree) (l : Location) : List Bytes → Except FileErrorKind Location
  | [] => .ok l
  | name :: rest =>
    match t.node? l with
    | none => .error .notFound
    | some (.file _) => .error .notDirectory
    | some .directory =>
      if maxNameLength < name.length then .error .nameTooLong else t.follow (l.step name) rest

def pathLength (p : Path) (names : List Bytes) : Nat :=
  p.root.length + names.flatten.length + (names.length - 1)

def locate (t : FileTree) (p : Path) : Except FileFault Location := do
  let names ← p.encode.mapError .path
  if maxPathLength < pathLength p names then throw (.system ⟨.nameTooLong, p⟩)
  else (t.follow (Location.start p) names).mapError fun kind => .system ⟨kind, p⟩

def isDirectory (t : FileTree) (p : Path) : Bool :=
  match t.locate p with
  | .ok l => t.node? l = some .directory
  | .error _ => false

def read (t : FileTree) (p : Path) : Except FileFault Bytes := do
  match t.node? (← t.locate p) with
  | some (.file content) => .ok content
  | some .directory => .error (.system ⟨.isDirectory, p⟩)
  | none => .error (.system ⟨.notFound, p⟩)

/-- Makes an empty file, or empties the one that is there, and gives its location. -/
def truncate (p : Path) : FileAction Location := do
  let t ← get
  let l ← t.locate p
  match t.node? l with
  | some .directory => throw (.system ⟨.isDirectory, p⟩)
  | _ => do
    set (t.put l (.file []))
    return l

/-- The file at the location with `data` put at a position; a gap is filled with zeros. -/
def writeAt (t : FileTree) (l : Location) (position : Nat) (data : Bytes) : FileTree :=
  match t.node? l with
  | some (.file content) =>
    let before := content.take position ++ List.replicate (position - content.length) 0
    t.put l (.file (before ++ data ++ content.drop (position + data.length)))
  | _ => t

def makeDirectory (p : Path) : FileAction Unit := do
  let t ← get
  let l ← t.locate p
  match t.node? l with
  | some _ => throw (.system ⟨.exists, p⟩)
  | none => set (t.put l .directory)

def ensureDirectory (p : Path) : FileAction Unit :=
  tryCatch (makeDirectory p) fun f => do
    if f.isNotFound || !(← get).isDirectory p then throw f

def ensureDirectories (p : Path) : FileAction Unit :=
  tryCatch (ensureDirectory p) fun f =>
    if _h : f.isNotFound ∧ p.names ≠ [] then do
      ensureDirectories p.parent
      ensureDirectory p
    else throw f
termination_by p.names.length
decreasing_by
  have := List.length_pos_iff.mpr _h.2
  simp only [Path.parent, List.length_dropLast]
  omega

def files (t : FileTree) : List (Text × Bytes) :=
  t.entries.filterMap fun (l, n) =>
    match n with
    | .file content =>
      if l.head? = some Location.up ∨ l.head? = some Location.root then none
      else some (Text.joinWith "/" (l.map Text.ofBytes), content)
    | .directory => none

end FileTree

end LuaBytecode
