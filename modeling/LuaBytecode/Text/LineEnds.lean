import LuaBytecode.Text.Basic

/-!
# Line ends

A line of a text file ends with a line feed, a carriage return, or both in this order. Once read,
all of them are line feeds. In a text that is shown, other control characters and the line and
paragraph separators end a line too.
-/

namespace LuaBytecode.Text

def lineFeed : CodePoint := .ofChar '\n'

def carriageReturn : CodePoint := .ofChar '\r'

def unifyLineEnds : List CodePoint → List CodePoint
  | [] => []
  | c :: rest =>
    if c = carriageReturn then
      match rest with
      | [] => [lineFeed]
      | d :: more =>
        if d = lineFeed then lineFeed :: unifyLineEnds more
        else lineFeed :: unifyLineEnds (d :: more)
    else c :: unifyLineEnds rest

def endsLine (c : CodePoint) : Bool :=
  (0x0A ≤ c.val && c.val ≤ 0x0D) || (0x1C ≤ c.val && c.val ≤ 0x1E) ||
    [0x85, 0x2028, 0x2029].contains c.val

def lastLine (t : Text) : Text :=
  let codes := unifyLineEnds t.codes
  let closed := if codes.getLast?.any endsLine then codes.dropLast else codes
  ⟨(closed.reverse.takeWhile (!endsLine ·)).reverse⟩

end LuaBytecode.Text
