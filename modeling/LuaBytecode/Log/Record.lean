import LuaBytecode.Note

/-!
# Log records

A record has a source, a level and a message, and is written as one line: one form for the console
and one for a trace file.
-/

namespace LuaBytecode.Log

inductive Source where
  | commandLine
  | files
  | header
  | decoder
  | options
  | compiler
  deriving DecidableEq

def Source.name : Source → Text
  | .commandLine => "luachunk.cli"
  | .files => "luachunk.io"
  | .header => "luachunk.header"
  | .decoder => "luachunk.undump"
  | .options => "luachunk.config"
  | .compiler => "luachunk.lua51"

inductive Level where
  | debug
  | info
  | error
  deriving DecidableEq

namespace Level

def weight : Level → Int
  | .debug => 10
  | .info => 20
  | .error => 40

def name : Level → Text
  | .debug => "DEBUG"
  | .info => "INFO"
  | .error => "ERROR"

end Level

structure Record where
  source : Source
  level : Level
  message : Text
  deriving DecidableEq

namespace Record

def consoleLine (r : Record) : Text :=
  r.level.name ++ ":" ++ r.source.name ++ ":" ++ r.message ++ "\n"

def traceLine (r : Record) : Text :=
  r.source.name ++ " " ++ r.level.name ++ " " ++ r.message ++ "\n"

def ofNote (n : Note) : Record where
  source := match n with
    | .header _ => .header
    | .prototype .. | .chunk .. => .decoder
  level := .debug
  message := n.message

end Record

end LuaBytecode.Log
