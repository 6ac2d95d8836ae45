import LuaBytecode.Decimal.Style
import LuaBytecode.Json.Basic

/-!
# Writing JSON

A layout says what stands before each item: nothing, or a line break with an indentation for the
depth of the item. The output is ASCII: a code point outside it is written as an escape, and one
above the basic plane as the escapes of its two surrogates.
-/

namespace LuaBytecode.Json

/-- The line break before an item, by the depth of the item, and what separates a name from its
value. -/
structure Layout where
  lineBreak : (depth : Nat) → Text
  colon : Text

namespace Layout

def compact : Layout := ⟨fun _ => Text.empty, ":"⟩

/-- An item a line, indented by `width` blanks for each level; a width below zero is none. -/
def indented (width : Int) : Layout :=
  ⟨fun depth => "\n" ++ ⟨List.replicate (width.toNat * depth) (.ofChar ' ')⟩, ": "⟩

end Layout

inductive WidthFault where
  | missing
  | outOfRange
  | outOfMemory
  deriving DecidableEq

def WidthFault.message : WidthFault → Text
  | .missing => "can't multiply sequence by non-int of type 'list'"
  | .outOfRange => "cannot fit 'int' into an index-sized integer"
  | .outOfMemory => Text.empty

/-- The layout of a width, where there is memory for widths up to `maxWidth`. -/
def Layout.ofWidth (maxWidth width : Int) : Except WidthFault Layout :=
  if width < -0x8000000000000000 ∨ 0x8000000000000000 ≤ width then .error .outOfRange
  else if maxWidth < width then .error .outOfMemory
  else .ok (.indented width)

def escapeUnit (n : Nat) : Text := "\\u" ++ Text.ofHex 4 n

def escapeCode (c : CodePoint) : Text :=
  if c = .ofChar '"' then "\\\""
  else if c = .ofChar '\\' then "\\\\"
  else if c.val = 0x0A then "\\n"
  else if c.val = 0x0D then "\\r"
  else if c.val = 0x09 then "\\t"
  else if c.val = 0x08 then "\\b"
  else if c.val = 0x0C then "\\f"
  else if 0x20 ≤ c.val ∧ c.val < 0x7F then ⟨[c]⟩
  else if c.val < 0x10000 then escapeUnit c.val
  else
    escapeUnit (0xD800 + (c.val - 0x10000) / 0x400) ++
      escapeUnit (0xDC00 + (c.val - 0x10000) % 0x400)

def quote (t : Text) : Text := "\"" ++ Text.concat (t.codes.map escapeCode) ++ "\""

/-- A number; those that are not finite get the words that the parser reads. -/
def floatText (x : Binary64) : Text :=
  if x.isNaN then "NaN"
  else if x.isFinite then x.toText
  else if x.isNegative then "-Infinity"
  else "Infinity"

mutual

def render (layout : Layout) (depth : Nat) : Json → (rest : List CodePoint) → List CodePoint
  | .null, rest => ("null" : Text).codes ++ rest
  | .bool b, rest => (if b then ("true" : Text) else "false").codes ++ rest
  | .int n, rest => (Text.ofInt n).codes ++ rest
  | .float x, rest => (floatText x).codes ++ rest
  | .string t, rest => (quote t).codes ++ rest
  | .array [], rest => ("[]" : Text).codes ++ rest
  | .array (item :: items), rest =>
    .ofChar '[' :: (layout.lineBreak (depth + 1)).codes ++
      render layout (depth + 1) item
        (renderItems layout (depth + 1) items
          ((layout.lineBreak depth).codes ++ .ofChar ']' :: rest))
  | .object [], rest => ("\x7b\x7d" : Text).codes ++ rest
  | .object ((name, value) :: members), rest =>
    .ofChar '\x7b' :: (layout.lineBreak (depth + 1)).codes ++
      (quote name).codes ++ layout.colon.codes ++
      render layout (depth + 1) value
        (renderMembers layout (depth + 1) members
          ((layout.lineBreak depth).codes ++ .ofChar '\x7d' :: rest))

def renderItems (layout : Layout) (depth : Nat) :
    List Json → (rest : List CodePoint) → List CodePoint
  | [], rest => rest
  | item :: items, rest =>
    .ofChar ',' :: (layout.lineBreak depth).codes ++
      render layout depth item (renderItems layout depth items rest)

def renderMembers (layout : Layout) (depth : Nat) :
    List (Text × Json) → (rest : List CodePoint) → List CodePoint
  | [], rest => rest
  | (name, value) :: members, rest =>
    .ofChar ',' :: (layout.lineBreak depth).codes ++ (quote name).codes ++ layout.colon.codes ++
      render layout depth value (renderMembers layout depth members rest)

end

def print (layout : Layout) (value : Json) : Text := ⟨render layout 0 value []⟩

end LuaBytecode.Json
