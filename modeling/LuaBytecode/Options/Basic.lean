import LuaBytecode.Json.Display
import LuaBytecode.Text.Policy

/-!
# Decode options

Options are made from a JSON object and changed by overrides. Both check every value before the
options exist, so that options always satisfy what is checked: two booleans, a depth of at most
`maxDepthLimit`, and a policy.
-/

namespace LuaBytecode

/-- The deepest nesting that may be asked for. -/
def maxDepthLimit : Nat := 200

structure Options where
  verboseInstructions : Bool := false
  maxDepth : Nat := maxDepthLimit
  allowTrailingData : Bool := false
  stringErrors : Policy := .surrogateEscape
  maxDepth_le : maxDepth ≤ maxDepthLimit := by decide
  deriving DecidableEq

instance : Inhabited Options := ⟨{}⟩

def reservedName : Text := "self"

inductive OptionFault where
  | unknownNames (names : List Text)
  | notBoolean (name : Text) (found : Json)
  | badDepth (found : Json)
  | policyNotText (found : Json)
  | unknownPolicy (name : Text)
  | policy (f : PolicyFault)
  | unknownOverride (name : Text)
  | reservedOverride

def OptionFault.message : OptionFault → Text
  | .unknownNames names => "unknown decode option(s): " ++ Text.joinWith ", " names
  | .notBoolean name found => name ++ " must be a bool, got " ++ found.display
  | .badDepth found =>
    "max_depth must be an integer between 0 and " ++ Text.ofNat maxDepthLimit ++ ", got " ++
      found.display
  | .policyNotText found => "string_errors must be a string, got " ++ found.display
  | .unknownPolicy name => "unknown string error policy: " ++ name.quoted
  | .policy f => f.message
  | .unknownOverride name =>
    "DecodeOptions.__init__() got an unexpected keyword argument '" ++ name ++ "'"
  | .reservedOverride =>
    "DecodeOptions.with_overrides() got multiple values for argument '" ++ reservedName ++ "'"

namespace Options

inductive Name where
  | verboseInstructions
  | maxDepth
  | allowTrailingData
  | stringErrors
  deriving DecidableEq

def Name.all : List Name :=
  [.verboseInstructions, .maxDepth, .allowTrailingData, .stringErrors]

def Name.text : Name → Text
  | .verboseInstructions => "verbose_instructions"
  | .maxDepth => "max_depth"
  | .allowTrailingData => "allow_trailing_data"
  | .stringErrors => "string_errors"

def isName (t : Text) : Bool := Name.all.any (·.text = t)

structure Draft where
  verboseInstructions : Json
  maxDepth : Json
  allowTrailingData : Json
  stringErrors : Json

def draft (o : Options) : Draft where
  verboseInstructions := .bool o.verboseInstructions
  maxDepth := .int o.maxDepth
  allowTrailingData := .bool o.allowTrailingData
  stringErrors := .string o.stringErrors.name

namespace Draft

def overwrite (d : Draft) (members : List (Text × Json)) : Draft :=
  let value (name : Name) (old : Json) := (Json.member? name.text members).getD old
  { verboseInstructions := value .verboseInstructions d.verboseInstructions
    maxDepth := value .maxDepth d.maxDepth
    allowTrailingData := value .allowTrailingData d.allowTrailingData
    stringErrors := value .stringErrors d.stringErrors }

def checkBoolean (name : Name) : Json → Except OptionFault Bool
  | .bool b => .ok b
  | found => .error (.notBoolean name.text found)

/-- An integer in range; a boolean is none. -/
def checkDepth : Json → Except OptionFault { n : Nat // n ≤ maxDepthLimit }
  | .int (.ofNat n) =>
    if h : n ≤ maxDepthLimit then .ok ⟨n, h⟩ else .error (.badDepth (.int n))
  | found => .error (.badDepth found)

def checkPolicy : Json → Except OptionFault Policy
  | .string name =>
    match Policy.nameFault? name, Policy.ofName? name with
    | some fault, _ => .error (.policy fault)
    | none, some policy => .ok policy
    | none, none => .error (.unknownPolicy name)
  | found => .error (.policyNotText found)

/-- The options of a draft whose values are all valid; of several faults the first counts, the two
booleans coming before the depth and the policy. -/
def check (d : Draft) : Except OptionFault Options := do
  let verboseInstructions ← checkBoolean .verboseInstructions d.verboseInstructions
  let allowTrailingData ← checkBoolean .allowTrailingData d.allowTrailingData
  let ⟨maxDepth, maxDepth_le⟩ ← checkDepth d.maxDepth
  let stringErrors ← checkPolicy d.stringErrors
  return { verboseInstructions, maxDepth, allowTrailingData, stringErrors, maxDepth_le }

end Draft

/-- The options that the members of an object give, with defaults for those not named. -/
def ofMembers (members : List (Text × Json)) : Except OptionFault Options :=
  match (members.map (·.1)).filter (!isName ·) with
  | [] => ((default : Options).draft.overwrite members).check
  | unknown => .error (.unknownNames (unknown.mergeSort Text.le))

def withOverrides (o : Options) (overrides : List (Text × Json)) : Except OptionFault Options :=
  if overrides.any (·.1 = reservedName) then .error .reservedOverride
  else
    match overrides.filter (!·.2.isNull) with
    | [] => .ok o
    | changes =>
      match changes.find? (!isName ·.1) with
      | some (name, _) => .error (.unknownOverride name)
      | none => (o.draft.overwrite changes).check

def toMembers (o : Options) : List (Text × Json) :=
  [(Name.verboseInstructions.text, .bool o.verboseInstructions),
    (Name.maxDepth.text, .int o.maxDepth),
    (Name.allowTrailingData.text, .bool o.allowTrailingData),
    (Name.stringErrors.text, .string o.stringErrors.name)]

def display (o : Options) : Text :=
  "DecodeOptions(" ++
    Text.joinWith ", " (o.toMembers.map fun (name, value) => name ++ "=" ++ value.display) ++ ")"

end Options

end LuaBytecode
