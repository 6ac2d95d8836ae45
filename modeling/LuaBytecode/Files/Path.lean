import LuaBytecode.Text.Policy

/-!
# Paths

A path is a root and the names along it. Empty names and those that stand for the directory itself
are left out when a path is read, and the path of no names is written as a single point. A file
system takes the names as bytes, none of them zero.
-/

namespace LuaBytecode

structure Path where
  root : Text
  names : List Text
  deriving DecidableEq

inductive PathFault where
  | unencodable (u : Utf8.Unencodable)
  | nullCharacter
  deriving DecidableEq

def PathFault.message : PathFault → Text
  | .unencodable u => u.message
  | .nullCharacter => "embedded null byte"

namespace Path

def slash : CodePoint := .ofChar '/'

def split : List CodePoint → List (List CodePoint)
  | [] => [[]]
  | c :: rest =>
    if c = slash then [] :: split rest
    else
      match split rest with
      | [] => [[c]]
      | part :: parts => (c :: part) :: parts

/-- The root of a path that begins with that many slashes: exactly two are a root of their own. -/
def rootOf : (slashes : Nat) → Text
  | 0 => Text.empty
  | 2 => "//"
  | _ => "/"

def ofText (t : Text) : Path where
  root := rootOf (t.codes.takeWhile (· = slash)).length
  names := ((split t.codes).map Text.mk).filter fun name => !name.isEmpty && name ≠ "."

def toText (p : Path) : Text :=
  if p.root.isEmpty && p.names.isEmpty then "." else p.root ++ Text.joinWith "/" p.names

/-- The path without its last name; a path of no names is its own parent. -/
def parent (p : Path) : Path := { p with names := p.names.dropLast }

/-- The last name; a path of no names has the empty one. -/
def name (p : Path) : Text := p.names.getLast?.getD Text.empty

def untilNull (p : Path) : Path := ofText ⟨p.toText.codes.takeWhile (·.val ≠ 0)⟩

def encode (p : Path) : Except PathFault (List Bytes) :=
  match p.names.mapM Text.restore? with
  | some names => if names.any (·.contains 0) then .error .nullCharacter else .ok names
  | none => .error (.unencodable p.toText.unrestorable)

end Path

end LuaBytecode
