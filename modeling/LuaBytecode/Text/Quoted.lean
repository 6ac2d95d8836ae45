import LuaBytecode.Text.Printable

/-!
# Quoted text

A text is shown in single quotes, or in double quotes if it holds a single quote and no double one.
The quote, the backslash and what is not printable are escaped, so that the quoted form is one line
without surrogates.
-/

namespace LuaBytecode.Text

def quoteMark (t : Text) : CodePoint :=
  if t.codes.contains (.ofChar '\'') && !t.codes.contains (.ofChar '"') then .ofChar '"'
  else .ofChar '\''

/-- One code point between quotes `quote`. -/
def quotedCode (quote c : CodePoint) : Text :=
  if c = quote ∨ c = .ofChar '\\' then ⟨[.ofChar '\\', c]⟩
  else if c = .ofChar '\n' then "\\n"
  else if c = .ofChar '\r' then "\\r"
  else if c = .ofChar '\t' then "\\t"
  else if c.isPrintable then ⟨[c]⟩
  else if c.val < 0x100 then "\\x" ++ ofHex 2 c.val
  else if c.val < 0x10000 then "\\u" ++ ofHex 4 c.val
  else "\\U" ++ ofHex 8 c.val

def quoted (t : Text) : Text :=
  let quote := t.quoteMark
  ⟨[quote]⟩ ++ concat (t.codes.map (quotedCode quote)) ++ ⟨[quote]⟩

end LuaBytecode.Text
