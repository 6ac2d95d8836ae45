import LuaBytecode.CommandLine.Flag
import LuaBytecode.Text.DecimalDigit
import LuaBytecode.Text.Quoted

/-!
# Kinds of arguments

Each argument is sorted by its form alone, before any of them takes effect. After a double hyphen
all arguments are plain. An argument that begins with a hyphen is a flag if it spells or
abbreviates one; otherwise it is plain if it reads as a negative number or holds a blank, and else
unknown.
-/

namespace LuaBytecode.CommandLine

inductive UsageError where
  | ambiguous (argument : Text) (spellings : List Text)
  | expectedValue (flag : Flag)
  | unexpectedValue (flag : Flag) (value : Text)
  | badDepth (text : Text)
  | depthOutOfRange (depth : Int)
  | badIndent (text : Text)
  | missingInput
  | unrecognized (arguments : List Text)
  deriving DecidableEq

inductive Argument where
  | plain (text : Text)
  | doubleHyphen
  /-- A flag, with the value attached to it; `short` says that it is spelt with one hyphen. -/
  | flag (f : Flag) (short : Bool) (value : Option Text)
  | unknown (text : Text)
  deriving DecidableEq

namespace Argument

def hyphen : CodePoint := .ofChar '-'

def splitAtEquals? (t : Text) : Option (Text × Text) :=
  match t.codes.span (· ≠ .ofChar '=') with
  | (_, []) => none
  | (before, _ :: after) => some (⟨before⟩, ⟨after⟩)

def isDigit (c : CodePoint) : Bool := c.decimalDigit?.isSome

/-- Whether a text is a hyphen and digits, or a hyphen, digits or none, a point and digits; a line
feed may end it. -/
def isNegativeNumber (t : Text) : Bool :=
  let codes := if t.codes.getLast? = some (.ofChar '\n') then t.codes.dropLast else t.codes
  match codes with
  | [] => false
  | c :: body =>
    c = hyphen &&
      match body.dropWhile isDigit with
      | [] => !body.isEmpty
      | point :: fraction => point = .ofChar '.' && !fraction.isEmpty && fraction.all isDigit

/-- The flags that an argument with a hyphen can mean, with their spellings and attached values. An
argument with one hyphen can be the short flag with a value right after it. -/
def candidates (t : Text) : List (Text × Argument) :=
  if (t.codes.take 2).all (· = hyphen) then
    let (spelling, value) := match splitAtEquals? t with
      | some (spelling, value) => (spelling, some value)
      | none => (t, none)
    (Flag.withStart spelling).map fun (spelt, f) => (spelt, .flag f false value)
  else
    Flag.spellings.filterMap fun (spelt, f) =>
      if (spelt : Text).codes = t.codes.take 2 then
        some (spelt, .flag f true (some ⟨t.codes.drop 2⟩))
      else none

def isShort (t : Text) : Bool := (t.codes.drop 1).head? ≠ some hyphen

/-- The kind of an argument that begins with a hyphen and spells no flag exactly. -/
def ofHyphenated (t : Text) : Except UsageError Argument :=
  let exact := (splitAtEquals? t).bind fun (spelling, value) =>
    (Flag.ofSpelling? spelling).map fun f => flag f (isShort t) (some value)
  match exact with
  | some argument => .ok argument
  | none =>
    match candidates t with
    | [(_, argument)] => .ok argument
    | [] =>
      if isNegativeNumber t || t.codes.contains (.ofChar ' ') then .ok (.plain t)
      else .ok (.unknown t)
    | several => .error (.ambiguous t (several.map (·.1)))

def ofText (t : Text) : Except UsageError Argument :=
  if t.codes.head? ≠ some hyphen ∨ t.length = 1 then .ok (.plain t)
  else
    match Flag.ofSpelling? t with
    | some f => .ok (.flag f (isShort t) none)
    | none => ofHyphenated t

def classify : List Text → Except UsageError (List Argument)
  | [] => .ok []
  | t :: rest =>
    if t = "--" then .ok (.doubleHyphen :: rest.map .plain)
    else do
      let argument ← ofText t
      return argument :: (← classify rest)

end Argument

end LuaBytecode.CommandLine
