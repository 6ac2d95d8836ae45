import LuaBytecode.Decimal.Digits

/-!
# Text

A text is a sequence of Unicode code points. A surrogate is a code point like any other, with or
without a partner: the texts of a chunk need not be well-formed, and a byte that is no character is
kept in them as a lone surrogate.
-/

namespace LuaBytecode

abbrev CodePoint := Fin 0x110000

namespace CodePoint

def ofNat (n : Nat) : CodePoint := Fin.ofNat 0x110000 n

def ofChar (c : Char) : CodePoint :=
  ⟨c.toNat, by
    have valid := c.valid
    simp only [UInt32.isValidChar, Nat.isValidChar] at valid
    simp only [Char.toNat]
    omega⟩

def isHighSurrogate (c : CodePoint) : Bool := 0xD800 ≤ c.val && c.val ≤ 0xDBFF

def isLowSurrogate (c : CodePoint) : Bool := 0xDC00 ≤ c.val && c.val ≤ 0xDFFF

def isSurrogate (c : CodePoint) : Bool := c.isHighSurrogate || c.isLowSurrogate

def joinSurrogates (high low : CodePoint) : CodePoint :=
  ofNat (0x10000 + (high.val - 0xD800) * 0x400 + (low.val - 0xDC00))

def toChar? (c : CodePoint) : Option Char :=
  if h : c.val.isValidChar then some (Char.ofNatAux c.val h) else none

def ofDigit (d : Nat) : CodePoint := ofNat (0x30 + d)

def ofHexDigit (d : Nat) : CodePoint := if d < 10 then ofNat (0x30 + d) else ofNat (0x57 + d)

def hexDigit? (c : CodePoint) : Option Nat :=
  if 0x30 ≤ c.val ∧ c.val ≤ 0x39 then some (c.val - 0x30)
  else if 0x61 ≤ c.val ∧ c.val ≤ 0x66 then some (c.val - 0x57)
  else if 0x41 ≤ c.val ∧ c.val ≤ 0x46 then some (c.val - 0x37)
  else none

def isAsciiDigit (c : CodePoint) : Bool := 0x30 ≤ c.val && c.val ≤ 0x39

end CodePoint

structure Text where
  codes : List CodePoint
  deriving DecidableEq, Inhabited

namespace Text

def ofString (s : String) : Text := ⟨s.toList.map CodePoint.ofChar⟩

instance : Coe String Text := ⟨ofString⟩

instance : Append Text := ⟨fun s t => ⟨s.codes ++ t.codes⟩⟩

theorem codes_append (s t : Text) : (s ++ t).codes = s.codes ++ t.codes := rfl

def empty : Text := ⟨[]⟩

def length (t : Text) : Nat := t.codes.length

def isEmpty (t : Text) : Bool := t.codes.isEmpty

def concat (ts : List Text) : Text := ⟨ts.flatMap codes⟩

def joinWith (separator : Text) : List Text → Text
  | [] => empty
  | [t] => t
  | t :: rest => t ++ separator ++ joinWith separator rest

def hasSurrogate (t : Text) : Bool := t.codes.any CodePoint.isSurrogate

/-- The order of the first code points that differ; a text comes after the texts it extends. -/
def le (s t : Text) : Bool := !t.codes.lex s.codes (fun a b => a.val < b.val)

def ofNat (n : Nat) : Text := ⟨(Decimal.digits n).map CodePoint.ofDigit⟩

def ofInt : Int → Text
  | .ofNat n => ofNat n
  | .negSucc n => "-" ++ ofNat (n + 1)

/-- The `width` lowest hexadecimal digits of `n`. -/
def ofHex : (width n : Nat) → Text
  | 0, _ => empty
  | width + 1, n => ofHex width (n / 16) ++ ⟨[CodePoint.ofHexDigit (n % 16)]⟩

def toString? (t : Text) : Option String := (t.codes.mapM CodePoint.toChar?).map String.ofList

end Text

end LuaBytecode
