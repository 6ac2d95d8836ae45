import LuaBytecode.CommandLine.Argument
import LuaBytecode.Files.Path
import LuaBytecode.Options.Basic
import LuaBytecode.Text.IntegerLiteral

/-!
# Invocations

What the arguments ask for. They take effect from left to right, a later flag over an earlier one;
the first plain argument is the input, and what is left over is an error once all have been read.
-/

namespace LuaBytecode.CommandLine

/-- What a flag that takes a value was given. A value of two hyphens is taken for the end of the
flags and removed, which leaves nothing: that differs from leaving out the flag. -/
inductive Given (α : Type) where
  | value (a : α)
  | nothing
  deriving DecidableEq

structure Settings where
  source : Bool := false
  verboseInstructions : Bool := false
  maxDepth : Option (Given Nat) := none
  allowTrailingData : Bool := false
  stringErrors : Option (Given Text) := none
  config : Option Path := none
  jsonOut : Option Path := none
  includeRaw : Bool := false
  indent : Given Int := .value 2
  trace : Option Path := none
  verbose : Bool := false
  deriving DecidableEq

/-- What a command line asks for: its help text, or a run on an input. -/
inductive Request where
  | help
  | run (input : Path) (settings : Settings)
  deriving DecidableEq

def UsageError.message (e : UsageError) : Text :=
  let about (flag : Flag) (what : Text) : Text := "argument " ++ flag.label ++ ": " ++ what
  "luachunk: error: " ++
    match e with
    | .ambiguous argument spellings =>
      "ambiguous option: " ++ argument ++ " could match " ++ Text.joinWith ", " spellings
    | .expectedValue flag => about flag "expected one argument"
    | .unexpectedValue flag value => about flag ("ignored explicit argument " ++ value.quoted)
    | .badDepth text => about .maxDepth ("invalid integer: " ++ text.quoted)
    | .depthOutOfRange depth =>
      about .maxDepth
        ("must be between 0 and " ++ Text.ofNat maxDepthLimit ++ ", got " ++ Text.ofInt depth)
    | .badIndent text => about .indent ("invalid int value: " ++ text.quoted)
    | .missingInput => "the following arguments are required: input"
    | .unrecognized arguments => "unrecognized arguments: " ++ Text.joinWith " " arguments

namespace Settings

def switchOn (s : Settings) : Flag → Settings
  | .source => { s with source := true }
  | .verboseInstructions => { s with verboseInstructions := true }
  | .allowTrailingData => { s with allowTrailingData := true }
  | .includeRaw => { s with includeRaw := true }
  | .verbose => { s with verbose := true }
  | _ => s

def setNothing (s : Settings) : Flag → Settings
  | .maxDepth => { s with maxDepth := some .nothing }
  | .indent => { s with indent := .nothing }
  | .stringErrors => { s with stringErrors := some .nothing }
  | .config => { s with config := none }
  | .jsonOut => { s with jsonOut := none }
  | .trace => { s with trace := none }
  | _ => s

def setValue (s : Settings) (flag : Flag) (value : Text) : Except UsageError Settings :=
  match flag with
  | .maxDepth =>
    match value.toInt? with
    | none => .error (.badDepth value)
    | some depth =>
      if 0 ≤ depth ∧ depth ≤ maxDepthLimit then
        .ok { s with maxDepth := some (.value depth.toNat) }
      else .error (.depthOutOfRange depth)
  | .indent =>
    match value.toInt? with
    | none => .error (.badIndent value)
    | some width => .ok { s with indent := .value width }
  | .stringErrors => .ok { s with stringErrors := some (.value value) }
  | .config => .ok { s with config := some (.ofText value) }
  | .jsonOut => .ok { s with jsonOut := some (.ofText value) }
  | .trace => .ok { s with trace := some (.ofText value) }
  | _ => .ok s

def give (s : Settings) (flag : Flag) (text : Text) : Except UsageError Settings :=
  if text = "--" then .ok (s.setNothing flag) else s.setValue flag text

end Settings

/-- What is refused of a text attached to a flag that takes no value: after the short help flag more
of the same letter is the same flag again. -/
def refusedValue? (short : Bool) (value : Text) : Option Text :=
  if short ∧ !value.isEmpty then
    match value.codes.dropWhile (· = .ofChar 'h') with
    | [] => none
    | rest => some ⟨rest⟩
  else some value

/-- Reads arguments with what was found before: the input, the settings and what is left over. -/
def interpret (input : Option Text) (settings : Settings) (extras : List Text) :
    List Argument → Except UsageError Request
  | [] =>
    match input with
    | none => .error .missingInput
    | some text =>
      if extras.isEmpty then .ok (.run (.ofText text) settings)
      else .error (.unrecognized extras)
  | .plain text :: rest =>
    match input, rest with
    | none, .doubleHyphen :: later => interpret (some text) settings extras later
    | none, rest => interpret (some text) settings extras rest
    | some _, rest => interpret input settings (extras ++ [text]) rest
  | .doubleHyphen :: rest =>
    match input, rest with
    | none, .plain text :: later => interpret (some text) settings extras later
    | _, rest => interpret input settings (extras ++ [("--" : Text)]) rest
  | .unknown text :: rest => interpret input settings (extras ++ [text]) rest
  | .flag f short value :: rest =>
    if f.takesValue then
      match value, rest with
      | some value, rest => do interpret input (← settings.give f value) extras rest
      | none, .plain value :: later => do interpret input (← settings.give f value) extras later
      | none, _ => .error (.expectedValue f)
    else
      match value with
      | none => if f = .help then .ok .help else interpret input (settings.switchOn f) extras rest
      | some value =>
        match refusedValue? short value with
        | some refused => .error (.unexpectedValue f refused)
        | none => .ok .help

def parseArguments (arguments : List Text) : Except UsageError Request := do
  interpret none {} [] (← Argument.classify arguments)

end LuaBytecode.CommandLine
