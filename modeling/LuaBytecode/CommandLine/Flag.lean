import LuaBytecode.Text.Basic

/-!
# The flags of the command line

Every flag has a long spelling, and any abbreviation of it that fits no other flag. Some flags take
a value, which follows as the next argument or after an equals sign.
-/

namespace LuaBytecode.CommandLine

inductive Flag where
  | help
  | source
  | verboseInstructions
  | maxDepth
  | allowTrailingData
  | stringErrors
  | config
  | jsonOut
  | includeRaw
  | indent
  | trace
  | verbose
  deriving DecidableEq

namespace Flag

def spellings : List (String × Flag) :=
  [("-h", .help), ("--help", .help), ("--source", .source),
    ("--verbose-instructions", .verboseInstructions), ("--max-depth", .maxDepth),
    ("--allow-trailing-data", .allowTrailingData), ("--string-errors", .stringErrors),
    ("--config", .config), ("--json-out", .jsonOut), ("--include-raw", .includeRaw),
    ("--indent", .indent), ("--trace", .trace), ("--verbose", .verbose)]

def ofSpelling? (t : Text) : Option Flag :=
  (spellings.find? fun entry => Text.ofString entry.1 = t).map (·.2)

def withStart (t : Text) : List (Text × Flag) :=
  (spellings.map fun entry => (Text.ofString entry.1, entry.2)).filter fun entry =>
    t.codes.isPrefixOf entry.1.codes

def label (f : Flag) : Text :=
  Text.joinWith "/" ((spellings.filter (·.2 = f)).map fun entry => Text.ofString entry.1)

def takesValue : Flag → Bool
  | .maxDepth | .stringErrors | .config | .jsonOut | .indent | .trace => true
  | .help | .source | .verboseInstructions | .allowTrailingData | .includeRaw | .verbose => false

end Flag

end LuaBytecode.CommandLine
