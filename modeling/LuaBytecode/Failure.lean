import LuaBytecode.Compiler
import LuaBytecode.Fault
import LuaBytecode.Files.Tree
import LuaBytecode.Json.Parser
import LuaBytecode.Json.Printer
import LuaBytecode.Options.Basic

/-!
# Failures of a whole run

Besides a chunk that is not decoded: options that are refused, files that cannot be read, text files
that hold no text, and source text that is not compiled. A run reports some failures and is broken
off by the others.
-/

namespace LuaBytecode

inductive Failure where
  | scan (f : Fault)
  | option (f : OptionFault)
  | configUnreadable (path : Path) (e : FileError)
  | configMalformed (path : Path) (e : Json.ParseFault)
  | configNotObject (path : Path)
  | file (f : FileFault)
  | indent (f : Json.WidthFault)
  | text (m : Utf8.Malformed)
  | integerTooLong (digits : Nat)
  | nestedTooDeep (container : Json.Container)
  | unencodable (u : Utf8.Unencodable)
  | compilerMissing
  | compilerBroken (message : Text)
  | sourceRefused (c : Complaint)

namespace Failure

def message : Failure → Text
  | .scan f => f.message
  | .option f => f.message
  | .configUnreadable path e => "cannot read config " ++ path.toText ++ ": " ++ e.message
  | .configMalformed path e => "invalid JSON in config " ++ path.toText ++ ": " ++ e.message
  | .configNotObject path => "config " ++ path.toText ++ " must contain a JSON object"
  | .file f => f.message
  | .indent f => f.message
  | .text m => m.message
  | .integerTooLong digits => (Json.ParseFault.integerTooLong digits).message
  | .nestedTooDeep container => (Json.ParseFault.nestedTooDeep container).message
  | .unencodable u => u.message
  | .compilerMissing => "lupa with the bundled Lua 5.1 runtime is not installed"
  | .compilerBroken message => message
  | .sourceRefused c => "failed to compile Lua source: " ++ c.message

def ofCompiler : CompilerFault → Failure
  | .refusal c => .sourceRefused c
  | .breakdown message => .compilerBroken message

/-- What a run on an input reports about a failure; `none` if the failure breaks it off. -/
def report? (input : Path) : Failure → Option Text
  | .scan (.decode e) => some ("Cannot decode " ++ input.toText ++ ": " ++ e.message)
  | .scan (.unsupportedWidth _) | .scan (.unevenBlock _ _) | .scan (.policy _) => none
  | .option (.policy _) | .option (.unknownOverride _) | .option .reservedOverride => none
  | .file (.system e) => some ("Cannot read " ++ input.toText ++ ": " ++ e.message)
  | .file (.path _) | .indent _ => none
  | .text _ | .integerTooLong _ | .nestedTooDeep _ => none
  | .unencodable _ | .compilerBroken _ => none
  | f => some f.message

end Failure

end LuaBytecode
