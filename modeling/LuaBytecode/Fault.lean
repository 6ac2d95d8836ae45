import LuaBytecode.Constant
import LuaBytecode.Header
import LuaBytecode.Text.Policy

/-!
# Why a chunk is not decoded

A decode error is a cause and the offset where it was found. The field concerned, what was expected
and what was there, and the message all follow from the two.
-/

namespace LuaBytecode

inductive ErrorKind where
  | format
  | truncatedInput
  | range
  | unrecognizedConstantTag
  | nestingDepth
  | trailingData
  | invalidString
  deriving DecidableEq

inductive Cause where
  | badSignature (found : Bytes)
  | badHeaderByte (field : Header.Field) (found : Nat)
  /-- A read of `needed` bytes; `purpose` names the read where no field is named. -/
  | shortRead (purpose : Text) (field : Option Text) (needed available : Int)
  | shortRecords (field : Text) (count needed : Nat) (available : Int)
  | sizeTooLarge (field : Option Text) (value : Nat)
  | unknownTag (tag : Nat)
  | nestedTooDeep (limit depth : Nat)
  /-- The buffer has `total` bytes and the main function ends before. -/
  | unreadBytes (total : Nat)
  | malformedString (field : Text) (reason : Utf8.Reason) (payload : Bytes)
  deriving DecidableEq

structure DecodeError where
  cause : Cause
  offset : Int
  deriving DecidableEq

inductive Evidence where
  | number (n : Int)
  | numbers (ns : List Nat)
  | bytes (data : Bytes)
  deriving DecidableEq

def maxSize : Nat := 0x7FFFFFFFFFFFFFFF

/-- The name of a field, or what stands for it where it has none or an empty one. -/
def labelOr (purpose : Text) : Option Text → Text
  | some field => if field.isEmpty then purpose else field
  | none => purpose

namespace DecodeError

def kind (e : DecodeError) : ErrorKind :=
  match e.cause with
  | .badSignature _ | .badHeaderByte _ _ => .format
  | .shortRead _ _ _ _ | .shortRecords _ _ _ _ => .truncatedInput
  | .sizeTooLarge _ _ => .range
  | .unknownTag _ => .unrecognizedConstantTag
  | .nestedTooDeep _ _ => .nestingDepth
  | .unreadBytes _ => .trailingData
  | .malformedString _ _ _ => .invalidString

def field (e : DecodeError) : Option Text :=
  match e.cause with
  | .badSignature _ => some "signature"
  | .badHeaderByte field _ => some field.name
  | .shortRead _ field _ _ => field
  | .shortRecords field _ _ _ => some field
  | .sizeTooLarge field _ => field
  | .unknownTag _ => some "constant tag"
  | .nestedTooDeep _ _ => some "prototype"
  | .unreadBytes _ => some "end of chunk"
  | .malformedString field _ _ => some field

def expected (e : DecodeError) : Option Evidence :=
  match e.cause with
  | .badSignature _ => some (.bytes Header.signature)
  | .badHeaderByte field _ =>
    match field.accepted with
    | [value] => some (.number value)
    | values => some (.numbers values)
  | .shortRead _ _ needed _ => some (.number needed)
  | .shortRecords _ _ needed _ => some (.number needed)
  | .sizeTooLarge _ _ => some (.number maxSize)
  | .unknownTag _ => some (.numbers Constant.tags)
  | .nestedTooDeep limit _ => some (.number limit)
  | .unreadBytes total => some (.number total)
  | .malformedString _ _ _ => none

def actual (e : DecodeError) : Option Evidence :=
  match e.cause with
  | .badSignature found => some (.bytes found)
  | .badHeaderByte _ found => some (.number found)
  | .shortRead _ _ _ available => some (.number available)
  | .shortRecords _ _ _ available => some (.number available)
  | .sizeTooLarge _ value => some (.number value)
  | .unknownTag tag => some (.number tag)
  | .nestedTooDeep _ depth => some (.number depth)
  | .unreadBytes _ => some (.number e.offset)
  | .malformedString _ _ payload => some (.bytes payload)

def summary (e : DecodeError) : Text :=
  match e.cause with
  | .badSignature _ => "not a Lua bytecode chunk (bad signature)"
  | .badHeaderByte field _ => field.complaint
  | .shortRead purpose field needed available =>
    "need " ++ Text.ofInt needed ++ " byte(s) for " ++ labelOr purpose field ++ ", " ++
      Text.ofInt available ++ " available"
  | .shortRecords field count needed available =>
    field ++ " of " ++ Text.ofNat count ++ " needs at least " ++ Text.ofNat needed ++
      " byte(s), " ++ Text.ofInt available ++ " available"
  | .sizeTooLarge field value =>
    labelOr "size" field ++ " value " ++ Text.ofNat value ++ " exceeds the host integer range"
  | .unknownTag tag => "unrecognized constant tag " ++ Text.ofNat tag
  | .nestedTooDeep limit _ => "prototypes nest deeper than " ++ Text.ofNat limit ++ " levels"
  | .unreadBytes total =>
    Text.ofInt (total - e.offset) ++ " unread byte(s) after the main function"
  | .malformedString field reason _ => field ++ " is not valid UTF-8: " ++ reason.message

def message (e : DecodeError) : Text :=
  e.summary ++ " (at offset " ++ Text.ofInt e.offset ++ ")"

end DecodeError

/-- Why a scan stops: the bytes are no chunk, or it was asked for something that cannot be done. -/
inductive Fault where
  | decode (e : DecodeError)
  | unsupportedWidth (width : Int)
  | unevenBlock (length : Nat) (size : Int)
  | policy (f : PolicyFault)
  deriving DecidableEq

def Fault.message : Fault → Text
  | .decode e => e.message
  | .unsupportedWidth width => "unsupported size_t width: " ++ Text.ofInt width
  | .unevenBlock length size =>
    Text.ofNat length ++ " byte block is not a multiple of " ++ Text.ofInt size
  | .policy f => f.message

end LuaBytecode
