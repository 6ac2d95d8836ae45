import LuaBytecode.Text.Utf8

/-!
# String policies

The strings of a chunk are meant to be UTF-8 but need not be. A policy says what a malformed piece
becomes in the text: a replacement, its bytes in a form that can be turned back, or a refusal.
-/

namespace LuaBytecode

open Utf8 (Piece Malformed Unencodable)

inductive Policy where
  | strict
  | ignore
  | replace
  | backslashReplace
  | surrogateEscape
  | surrogatePass
  | characterReference
  | characterName
  deriving DecidableEq

inductive PolicyFault where
  /-- No policy has that name, and the text is malformed. -/
  | unknown (name : Text)
  /-- The policy is for writing text, and the text is malformed. -/
  | writingOnly
  | nullInName
  | surrogatesInName (u : Unencodable)
  deriving DecidableEq

def PolicyFault.message : PolicyFault → Text
  | .unknown name => "unknown error handler name '" ++ name ++ "'"
  | .writingOnly => "don't know how to handle UnicodeDecodeError in error callback"
  | .nullInName => "embedded null character"
  | .surrogatesInName u => u.message

/-- Why bytes have no text: a malformed piece was refused, or the policy cannot be followed. -/
inductive TextFault where
  | malformed (m : Malformed)
  | policy (f : PolicyFault)
  deriving DecidableEq

abbrev TextReader := Bytes → Except TextFault Text

namespace Policy

def all : List Policy :=
  [.strict, .ignore, .replace, .backslashReplace, .surrogateEscape, .surrogatePass,
    .characterReference, .characterName]

def name : Policy → Text
  | .strict => "strict"
  | .ignore => "ignore"
  | .replace => "replace"
  | .backslashReplace => "backslashreplace"
  | .surrogateEscape => "surrogateescape"
  | .surrogatePass => "surrogatepass"
  | .characterReference => "xmlcharrefreplace"
  | .characterName => "namereplace"

def ofName? (name : Text) : Option Policy := all.find? (·.name = name)

/-- The surrogate that stands for a byte that is no character. -/
def escapedByte (b : UInt8) : CodePoint := .ofNat (0xDC00 + b.toNat)

/-- What the policy writes for a malformed piece; `none` if it refuses. -/
def substitute : Policy → Bytes → Option (List CodePoint)
  | .ignore, _ => some []
  | .replace, _ => some [.ofNat 0xFFFD]
  | .backslashReplace, bytes =>
    some (bytes.flatMap fun b => ("\\x" ++ Text.ofHex 2 b.toNat : Text).codes)
  | .surrogateEscape, bytes => some (bytes.map escapedByte)
  | .strict, _ | .surrogatePass, _ | .characterReference, _ | .characterName, _ => none

/-- The surrogate that three malformed pieces encode: such an encoding is cut into its bytes. -/
def encodedSurrogate? : Piece → Piece → Piece → Option CodePoint
  | .malformed _ [a], .malformed _ [b], .malformed _ [c] =>
    if a.toNat = 0xED ∧ 0xA0 ≤ b.toNat ∧ b.toNat ≤ 0xBF ∧ 0x80 ≤ c.toNat ∧ c.toNat ≤ 0xBF then
      some (.ofNat (0xD000 + (b.toNat - 0x80) * 64 + (c.toNat - 0x80)))
    else
      none
  | _, _, _ => none

def passSurrogates : List Piece → List Piece
  | p :: q :: r :: rest =>
    match encodedSurrogate? p q r with
    | some c => .char c :: passSurrogates rest
    | none => p :: passSurrogates (q :: r :: rest)
  | ps => ps

def prepare : Policy → List Piece → List Piece
  | .surrogatePass, ps => passSurrogates ps
  | _, ps => ps

def refuse : Policy → Malformed → TextFault
  | .characterReference, _ | .characterName, _ => .policy .writingOnly
  | _, m => .malformed m

def read (policy : Policy) : TextReader := fun payload =>
  match Utf8.textOfPieces policy.substitute 0 (policy.prepare (Utf8.pieces payload)) with
  | .ok codes => .ok ⟨codes⟩
  | .error m => .error (policy.refuse m)

def nameFault? (name : Text) : Option PolicyFault :=
  if name.hasSurrogate then
    some (.surrogatesInName (Utf8.surrogatesFrom CodePoint.isSurrogate name))
  else if name.codes.any (·.val = 0) then some .nullInName
  else none

/-- The text of the bytes under the policy of that name. An unknown name is refused only where a
malformed piece has to be handled. -/
def readNamed (name : Text) : TextReader := fun payload =>
  match nameFault? name, ofName? name with
  | some fault, _ => .error (.policy fault)
  | none, some policy => policy.read payload
  | none, none =>
    match Utf8.decode payload with
    | .ok text => .ok text
    | .error _ => .error (.policy (.unknown name))

end Policy

def Utf8.Piece.escaped : Piece → List CodePoint
  | .char c => [c]
  | .malformed _ bytes => bytes.map Policy.escapedByte

/-- A character for each piece, which for a malformed one is the replacement character. -/
def Utf8.Piece.replaced : Piece → CodePoint
  | .char c => c
  | .malformed _ _ => .ofNat 0xFFFD

def Text.ofBytes (data : Bytes) : Text := ⟨(Utf8.pieces data).flatMap Piece.escaped⟩

def CodePoint.isEscapedByte (c : CodePoint) : Bool := 0xDC80 ≤ c.val && c.val ≤ 0xDCFF

/-- The bytes that a code point stands for when malformed bytes are kept as surrogates: such a
surrogate gives its byte back, and any other surrogate stands for no bytes. -/
def CodePoint.restore? (c : CodePoint) : Option Bytes :=
  if c.isEscapedByte then some [UInt8.ofNat (c.val - 0xDC00)]
  else if c.isSurrogate then none
  else some (Utf8.encode c)

/-- The bytes that a text was read from when malformed bytes were kept as surrogates. -/
def Text.restore? (t : Text) : Option Bytes := (t.codes.mapM CodePoint.restore?).map List.flatten

def Text.unrestorable (t : Text) : Unencodable :=
  Utf8.surrogatesFrom (fun c => c.isSurrogate && !c.isEscapedByte) t

end LuaBytecode
