import LuaBytecode.Bytes
import LuaBytecode.Text.Basic

/-!
# UTF-8, well-formed or not

Any byte string is cut into pieces: the characters it encodes, and between them the maximal
malformed pieces, each the longest start of an encoding that its next byte, or the end, breaks off.
The cut is made by a machine that takes one byte at a time and holds the character it has begun.
-/

namespace LuaBytecode.Utf8

/-- The encoding of a code point; a surrogate gets the three bytes of its number. -/
def encode (c : CodePoint) : Bytes :=
  let n := c.val
  if n < 0x80 then [UInt8.ofNat n]
  else if n < 0x800 then [UInt8.ofNat (0xC0 + n / 64), UInt8.ofNat (0x80 + n % 64)]
  else if n < 0x10000 then
    [UInt8.ofNat (0xE0 + n / 4096), UInt8.ofNat (0x80 + n / 64 % 64), UInt8.ofNat (0x80 + n % 64)]
  else
    [UInt8.ofNat (0xF0 + n / 262144), UInt8.ofNat (0x80 + n / 4096 % 64),
      UInt8.ofNat (0x80 + n / 64 % 64), UInt8.ofNat (0x80 + n % 64)]

def encode? (t : Text) : Option Bytes :=
  if t.hasSurrogate then none else some (t.codes.flatMap encode)

structure Unencodable where
  start : Nat
  run : List CodePoint
  deriving DecidableEq

def Unencodable.message (u : Unencodable) : Text :=
  "'utf-8' codec can't encode " ++
    (match u.run with
      | [c] => "character '\\u" ++ Text.ofHex 4 c.val ++ "' in position " ++ Text.ofNat u.start
      | _ => "characters in position " ++ Text.ofNat u.start ++ "-" ++
        Text.ofNat (u.start + u.run.length - 1)) ++
    ": surrogates not allowed"

def surrogatesFrom (kind : CodePoint → Bool) (t : Text) : Unencodable :=
  let start := t.codes.findIdx kind
  ⟨start, (t.codes.drop start).takeWhile CodePoint.isSurrogate⟩

inductive Reason where
  | startByte
  | continuationByte
  | endOfData
  deriving DecidableEq

def Reason.message : Reason → Text
  | .startByte => "invalid start byte"
  | .continuationByte => "invalid continuation byte"
  | .endOfData => "unexpected end of data"

inductive Piece where
  | char (c : CodePoint)
  | malformed (reason : Reason) (bytes : Bytes)
  deriving DecidableEq

def Piece.bytes : Piece → Bytes
  | .char c => encode c
  | .malformed _ bytes => bytes

/-- A character that has been begun: its bytes so far, the number they give, the range its next byte
must lie in, and how many bytes it needs after that one. -/
structure Pending where
  taken : Bytes
  number : Nat
  low : Nat
  high : Nat
  further : Nat

/-- What a byte does between characters: the pieces it completes and the character it begins. -/
def startWith (b : UInt8) : List Piece × Option Pending :=
  let n := b.toNat
  if n < 0x80 then ([.char (.ofNat n)], none)
  else if n < 0xC2 then ([.malformed .startByte [b]], none)
  else if n < 0xE0 then ([], some ⟨[b], n - 0xC0, 0x80, 0xBF, 0⟩)
  else if n < 0xF0 then
    ([], some ⟨[b], n - 0xE0, if n = 0xE0 then 0xA0 else 0x80, if n = 0xED then 0x9F else 0xBF, 1⟩)
  else if n < 0xF5 then
    ([], some ⟨[b], n - 0xF0, if n = 0xF0 then 0x90 else 0x80, if n = 0xF4 then 0x8F else 0xBF, 2⟩)
  else ([.malformed .startByte [b]], none)

def Pending.extend (p : Pending) (b : UInt8) : List Piece × Option Pending :=
  let number := p.number * 64 + (b.toNat - 0x80)
  match p.further with
  | 0 => ([.char (.ofNat number)], none)
  | further + 1 => ([], some ⟨p.taken ++ [b], number, 0x80, 0xBF, further⟩)

/-- The pieces that a byte completes, and the character that is open after it. A byte that does not
continue the open character breaks it off and is taken anew. -/
def advance : Option Pending → UInt8 → List Piece × Option Pending
  | none, b => startWith b
  | some p, b =>
    if p.low ≤ b.toNat ∧ b.toNat ≤ p.high then p.extend b
    else
      let next := startWith b
      (.malformed .continuationByte p.taken :: next.1, next.2)

def piecesFrom : Option Pending → Bytes → List Piece
  | none, [] => []
  | some p, [] => [.malformed .endOfData p.taken]
  | held, b :: rest =>
    let next := advance held b
    next.1 ++ piecesFrom next.2 rest

def pieces (data : Bytes) : List Piece := piecesFrom none data

structure Malformed where
  reason : Reason
  start : Nat
  bytes : Bytes
  deriving DecidableEq

def Malformed.message (m : Malformed) : Text :=
  "'utf-8' codec can't decode " ++
    (match m.bytes with
      | [b] => "byte 0x" ++ Text.ofHex 2 b.toNat ++ " in position " ++ Text.ofNat m.start
      | _ => "bytes in position " ++ Text.ofNat m.start ++ "-" ++
        Text.ofNat (m.start + m.bytes.length - 1)) ++
    ": " ++ m.reason.message

/-- The text of pieces that begin at `start`, with what `substitute` gives for each malformed one,
or the first malformed piece for which it gives nothing. -/
def textOfPieces (substitute : Bytes → Option (List CodePoint)) :
    (start : Nat) → List Piece → Except Malformed (List CodePoint)
  | _, [] => .ok []
  | start, .char c :: rest =>
    (textOfPieces substitute (start + (encode c).length) rest).map (c :: ·)
  | start, .malformed reason bytes :: rest =>
    match substitute bytes with
    | some codes => (textOfPieces substitute (start + bytes.length) rest).map (codes ++ ·)
    | none => .error ⟨reason, start, bytes⟩

def decode (data : Bytes) : Except Malformed Text :=
  (textOfPieces (fun _ => none) 0 (pieces data)).map Text.mk

end LuaBytecode.Utf8
