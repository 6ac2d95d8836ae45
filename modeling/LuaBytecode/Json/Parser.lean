import LuaBytecode.Decimal.Nearest
import LuaBytecode.Json.Basic

/-!
# Reading JSON

A scanner over the code points of a text. A failure says how much of the text was left where it was
found, from which position, line and column follow. Besides the numbers of the standard, the words
for NaN and the infinities are read. An integer may have at most `maxDigits` digits, and containers
nest only as deep as the caller allows.
-/

namespace LuaBytecode.Json

inductive Problem where
  | byteOrderMark
  | expectedValue
  | expectedName
  | expectedColon
  | expectedComma
  | extraData
  | controlCharacter
  | unterminatedString
  | badEscape
  | badUnicodeEscape
  deriving DecidableEq

def Problem.message : Problem → Text
  | .byteOrderMark => "Unexpected UTF-8 BOM (decode using utf-8-sig)"
  | .expectedValue => "Expecting value"
  | .expectedName => "Expecting property name enclosed in double quotes"
  | .expectedColon => "Expecting ':' delimiter"
  | .expectedComma => "Expecting ',' delimiter"
  | .extraData => "Extra data"
  | .controlCharacter => "Invalid control character at"
  | .unterminatedString => "Unterminated string starting at"
  | .badEscape => "Invalid \\escape"
  | .badUnicodeEscape => "Invalid \\uXXXX escape"

inductive Container where
  | array
  | object
  deriving DecidableEq

def Container.name : Container → Text
  | .array => "array"
  | .object => "object"

inductive ParseFault where
  | malformed (problem : Problem) (position line column : Nat)
  | integerTooLong (digits : Nat)
  | nestedTooDeep (container : Container)
  deriving DecidableEq

def maxDigits : Nat := 4300

def ParseFault.message : ParseFault → Text
  | .malformed problem position line column =>
    problem.message ++ ": line " ++ Text.ofNat line ++ " column " ++ Text.ofNat column ++
      " (char " ++ Text.ofNat position ++ ")"
  | .integerTooLong digits =>
    "Exceeds the limit (" ++ Text.ofNat maxDigits ++
      " digits) for integer string conversion: value has " ++ Text.ofNat digits ++
      " digits; use sys.set_int_max_str_digits() to increase the limit"
  | .nestedTooDeep container =>
    "maximum recursion depth exceeded while decoding a JSON " ++ container.name ++
      " from a unicode string"

/-- Where and why a scanner stops; `left` is the number of code points it has not passed. -/
inductive Stop where
  | problem (p : Problem) (left : Nat)
  | integerTooLong (digits : Nat)
  | nestedTooDeep (container : Container)

abbrev Found (α : Type) := Except Stop (α × List CodePoint)

def isBlank (c : CodePoint) : Bool :=
  c.val = 0x20 || c.val = 0x09 || c.val = 0x0A || c.val = 0x0D

def skipBlanks (s : List CodePoint) : List CodePoint := s.dropWhile isBlank

def simpleEscape? (c : CodePoint) : Option CodePoint :=
  if c = .ofChar '"' ∨ c = .ofChar '\\' ∨ c = .ofChar '/' then some c
  else if c = .ofChar 'b' then some (.ofNat 0x08)
  else if c = .ofChar 'f' then some (.ofNat 0x0C)
  else if c = .ofChar 'n' then some (.ofNat 0x0A)
  else if c = .ofChar 'r' then some (.ofNat 0x0D)
  else if c = .ofChar 't' then some (.ofNat 0x09)
  else none

/-- The number of the four hexadecimal digits at the front of a text that goes on after them. -/
def hexQuad? : List CodePoint → Option (Nat × List CodePoint)
  | a :: b :: c :: d :: next :: rest =>
    match a.hexDigit?, b.hexDigit?, c.hexDigit?, d.hexDigit? with
    | some a, some b, some c, some d => some (((a * 16 + b) * 16 + c) * 16 + d, next :: rest)
    | _, _, _, _ => none
  | _ => none

/-- The code point of a numeric escape, after its letter `u`. A high surrogate takes the low one
that the next escape gives. -/
def unicodeEscape (s : List CodePoint) : Found CodePoint :=
  match hexQuad? s with
  | none => .error (.problem .badUnicodeEscape (s.length + 1))
  | some (number, rest) =>
    let code := CodePoint.ofNat number
    match rest with
    | back :: u :: more =>
      if code.isHighSurrogate ∧ back = .ofChar '\\' ∧ u = .ofChar 'u' ∧ 5 ≤ more.length then
        match hexQuad? more with
        | none => .error (.problem .badUnicodeEscape (more.length + 1))
        | some (second, later) =>
          let low := CodePoint.ofNat second
          if low.isLowSurrogate then .ok (.joinSurrogates code low, later) else .ok (code, rest)
      else .ok (code, rest)
    | _ => .ok (code, rest)

/-- The rest of a string after its opening quote, at which `opening` code points were left. The text
so far is kept in reverse. -/
def stringRest (opening : Nat) : (fuel : Nat) → List CodePoint → List CodePoint → Found Text
  | 0, _, _ => .error (.problem .unterminatedString opening)
  | _ + 1, _, [] => .error (.problem .unterminatedString opening)
  | fuel + 1, done, c :: rest =>
    if c = .ofChar '"' then .ok (⟨done.reverse⟩, rest)
    else if c.val < 0x20 then .error (.problem .controlCharacter (rest.length + 1))
    else if c ≠ .ofChar '\\' then stringRest opening fuel (c :: done) rest
    else
      match rest with
      | [] => .error (.problem .unterminatedString opening)
      | letter :: more =>
        if letter = .ofChar 'u' then
          match unicodeEscape more with
          | .ok (code, later) => stringRest opening fuel (code :: done) later
          | .error stop => .error stop
        else
          match simpleEscape? letter with
          | some code => stringRest opening fuel (code :: done) more
          | none => .error (.problem .badEscape (more.length + 2))

def scanString (s : List CodePoint) : Found Text :=
  stringRest s.length s.length [] (s.drop 1)

def digitValue (c : CodePoint) : Nat := c.val - 0x30

/-- The digits of the whole part of a number: a zero, or digits that begin with another one. -/
def wholePart : List CodePoint → List CodePoint
  | [] => []
  | c :: rest =>
    if c = .ofChar '0' then [c]
    else if c.isAsciiDigit then c :: rest.takeWhile CodePoint.isAsciiDigit
    else []

def fractionPart : List CodePoint → List CodePoint
  | [] => []
  | c :: rest => if c = .ofChar '.' then rest.takeWhile CodePoint.isAsciiDigit else []

/-- The exponent and the number of code points that write it, if a digit follows the letter and the
sign. -/
def exponentPart : List CodePoint → Option (Int × Nat)
  | [] => none
  | c :: rest =>
    if c = .ofChar 'e' ∨ c = .ofChar 'E' then
      let signed := rest.take 1 = [.ofChar '-'] ∨ rest.take 1 = [.ofChar '+']
      let ds := (if signed then rest.drop 1 else rest).takeWhile CodePoint.isAsciiDigit
      let size : Int := Decimal.value (ds.map digitValue)
      if ds.isEmpty then none
      else
        some (if rest.take 1 = [.ofChar '-'] then -size else size,
          ds.length + (if signed then 2 else 1))
    else none

/-- A number: an integer if it has neither fraction nor exponent. -/
def scanNumber (s : List CodePoint) : Found Json :=
  let negative := s.take 1 = [.ofChar '-']
  let body := if negative then s.drop 1 else s
  let whole := wholePart body
  let afterWhole := body.drop whole.length
  let fraction := fractionPart afterWhole
  let afterFraction :=
    if fraction.isEmpty then afterWhole else afterWhole.drop (fraction.length + 1)
  if whole.isEmpty then .error (.problem .expectedValue s.length)
  else
    let coefficient := Decimal.value ((whole ++ fraction).map digitValue)
    match exponentPart afterFraction with
    | some (exponent, size) =>
      .ok (.float (.ofDecimal negative coefficient (exponent - fraction.length)),
        afterFraction.drop size)
    | none =>
      if !fraction.isEmpty then
        .ok (.float (.ofDecimal negative coefficient (-fraction.length)), afterFraction)
      else if maxDigits < whole.length then .error (.integerTooLong whole.length)
      else .ok (.int (if negative then -coefficient else coefficient), afterFraction)

def words : List (Text × Json) :=
  [("null", .null), ("true", .bool true), ("false", .bool false), ("NaN", .float .nan),
    ("Infinity", .float (.infinity false)), ("-Infinity", .float (.infinity true))]

def scanScalar (s : List CodePoint) : Found Json :=
  match words.find? fun word => word.1.codes.isPrefixOf s with
  | some (word, value) => .ok (value, s.drop word.length)
  | none => scanNumber s

mutual

/-- A value at the front of the text, in which `depth` containers can lie in each other. Every
second step passes a code point, which bounds the fuel. -/
def scanValue : (fuel depth : Nat) → List CodePoint → Found Json
  | 0, _, s => .error (.problem .expectedValue s.length)
  | _ + 1, _, [] => .error (.problem .expectedValue 0)
  | fuel + 1, depth, c :: rest =>
    if c = .ofChar '"' then (scanString (c :: rest)).map fun (t, later) => (.string t, later)
    else if c = .ofChar '[' then
      match depth, skipBlanks rest with
      | 0, _ => .error (.nestedTooDeep .array)
      | _ + 1, [] => .error (.problem .expectedValue 0)
      | depth + 1, d :: more =>
        if d = .ofChar ']' then .ok (.array [], more)
        else (scanItems fuel depth (d :: more)).map fun (found, later) => (.array found, later)
    else if c = .ofChar '{' then
      match depth, skipBlanks rest with
      | 0, _ => .error (.nestedTooDeep .object)
      | _ + 1, [] => .error (.problem .expectedName 0)
      | depth + 1, d :: more =>
        if d = .ofChar '}' then .ok (.object [], more)
        else
          (scanMembers fuel depth [] (d :: more)).map fun (found, later) => (.object found, later)
    else scanScalar (c :: rest)

def scanItems : (fuel depth : Nat) → List CodePoint → Found (List Json)
  | 0, _, s => .error (.problem .expectedValue s.length)
  | fuel + 1, depth, s =>
    match scanValue fuel depth s with
    | .error stop => .error stop
    | .ok (item, rest) =>
      match skipBlanks rest with
      | [] => .error (.problem .expectedComma 0)
      | c :: more =>
        if c = .ofChar ']' then .ok ([item], more)
        else if c = .ofChar ',' then
          (scanItems fuel depth (skipBlanks more)).map fun (found, later) => (item :: found, later)
        else .error (.problem .expectedComma (more.length + 1))

/-- The members of an object that has one, up to its closing brace, added to those found before. -/
def scanMembers :
    (fuel depth : Nat) → List (Text × Json) → List CodePoint → Found (List (Text × Json))
  | 0, _, _, s => .error (.problem .expectedName s.length)
  | fuel + 1, depth, found, s =>
    if s.take 1 ≠ [.ofChar '"'] then .error (.problem .expectedName s.length)
    else
      match scanString s with
      | .error stop => .error stop
      | .ok (name, rest) =>
        match skipBlanks rest with
        | [] => .error (.problem .expectedColon 0)
        | colon :: more =>
          if colon ≠ .ofChar ':' then .error (.problem .expectedColon (more.length + 1))
          else
            match scanValue fuel depth (skipBlanks more) with
            | .error stop => .error stop
            | .ok (item, rest) =>
              match skipBlanks rest with
              | [] => .error (.problem .expectedComma 0)
              | c :: more =>
                if c = .ofChar '}' then .ok (setMember name item found, more)
                else if c = .ofChar ',' then
                  scanMembers fuel depth (setMember name item found) (skipBlanks more)
                else .error (.problem .expectedComma (more.length + 1))

end

def document (depth : Nat) (s : List CodePoint) : Except Stop Json :=
  if s.take 1 = [.ofNat 0xFEFF] then .error (.problem .byteOrderMark s.length)
  else
    match scanValue (2 * s.length + 2) depth (skipBlanks s) with
    | .error stop => .error stop
    | .ok (found, rest) =>
      match skipBlanks rest with
      | [] => .ok found
      | more => .error (.problem .extraData more.length)

/-- A stop as a fault of the whole text: lines end at line feeds, and counting starts at one. -/
def Stop.fault (s : List CodePoint) : Stop → ParseFault
  | .problem p left =>
    let before := s.take (s.length - left)
    let sameLine := before.reverse.takeWhile (· ≠ .ofChar '\n')
    .malformed p before.length (before.count (.ofChar '\n') + 1) (sameLine.length + 1)
  | .integerTooLong digits => .integerTooLong digits
  | .nestedTooDeep container => .nestedTooDeep container

/-- The value that a text writes, with at most `depth` containers in each other. -/
def parse (depth : Nat) (t : Text) : Except ParseFault Json :=
  (document depth t.codes).mapError (·.fault t.codes)

end LuaBytecode.Json
