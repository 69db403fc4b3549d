import HubPack.Marker
import HubPack.Message.Type
import HubPack.Text.Utf8

namespace HubPack

inductive Wanted where
  | nil | bool | integer | string | bytes | array | map | value
  deriving DecidableEq, Repr

def Wanted.word : Wanted → String
  | .nil => "nil"
  | .bool => "bool"
  | .integer => "integer"
  | .string => "string"
  | .bytes => "bytes"
  | .array => "array"
  | .map => "map"
  | .value => "value"

/-- Bytes that are no value, or no value of the wanted kind. -/
inductive Malformed where
  | lengthPrefix
  | pastFrame
  | unexpected (wanted : Wanted) (found : Marker)
  | integerRange
  | utf8 (fault : Utf8.Fault)
  | nesting (limit : Nat)
  | extraFields (resultKind : Int) (count : Nat)
  | other (text : String)
  deriving DecidableEq, Repr

inductive Violation where
  | emptyMessage
  | fewFields (type : MessageType) (fields least : Nat)
  | resultKind (kind : Int)
  | resultFields (kind : Int) (fields expected : Nat)
  | other (text : String)
  deriving DecidableEq, Repr

inductive Counted where
  | array | map | ext
  deriving DecidableEq, Repr

def Counted.word : Counted → String
  | .array => "array"
  | .map => "map"
  | .ext => "ext"

inductive Unwritable where
  | tooLong (what : Counted) (length : Nat)
  | other (text : String)
  deriving DecidableEq, Repr

inductive WireError where
  | incompleteFrame (needed : Nat)
  | insufficientData
  | malformedValue (cause : Malformed)
  | protocolViolation (cause : Violation)
  | unknownMessageType (code : Int)
  | frameTooLarge (size limit : Nat)
  | serialization (cause : Unwritable)
  deriving DecidableEq, Repr

/-- Errors of the whole library: of the encoding, or of a message that must not be built. -/
inductive Failure where
  | wire (e : WireError)
  | invalidMessage (text : String)
  deriving DecidableEq, Repr

def Malformed.message : Malformed → String
  | .lengthPrefix => "length prefix exceeds the 2 GB frame limit"
  | .pastFrame => "value extends past the end of its frame"
  | .unexpected wanted found => s!"expected {wanted.word}, found marker {found.name}"
  | .integerRange => "integer does not fit in i64"
  | .utf8 fault => s!"invalid UTF-8 in string: {fault.message}"
  | .nesting limit => s!"value nested deeper than {limit} levels"
  | .extraFields kind count => s!"completion with result kind {kind} carries {count} extra fields"
  | .other text => text

def Violation.message : Violation → String
  | .emptyMessage => "message array is empty"
  | .fewFields type fields least =>
    s!"{type.name} message has {fields} fields, expected at least {least}"
  | .resultKind kind => s!"unknown completion result kind {kind}"
  | .resultFields kind fields expected =>
    s!"completion with result kind {kind} has {fields} fields, expected {expected}"
  | .other text => text

def Unwritable.message : Unwritable → String
  | .tooLong what length => s!"{what.word} of {length} elements is too long"
  | .other text => text

namespace WireError

def message : WireError → String
  | .incompleteFrame needed => s!"incomplete frame: need at least {needed} more bytes"
  | .insufficientData => "insufficient data to read value"
  | .malformedValue cause => s!"malformed value: {cause.message}"
  | .protocolViolation cause => s!"protocol violation: {cause.message}"
  | .unknownMessageType code => s!"unknown message type: {code}"
  | .frameTooLarge size limit => s!"frame too large: {size} bytes (max: {limit})"
  | .serialization cause => s!"serialization error: {cause.message}"

def isRecoverable : WireError → Bool
  | .incompleteFrame _ | .insufficientData => true
  | _ => false

def isFatal : WireError → Bool
  | .malformedValue _ | .protocolViolation _ | .frameTooLarge .. => true
  | _ => false

/-- The same error inside a frame that is all there: running out of bytes then means that the
frame is wrong about its length. -/
def insideFrame : WireError → WireError
  | .insufficientData | .incompleteFrame _ => .malformedValue .pastFrame
  | e => e

end WireError

namespace Failure

def message : Failure → String
  | .wire e => s!"codec error: {e.message}"
  | .invalidMessage text => s!"invalid message: {text}"

def closesConnection : Failure → Bool
  | .wire e => e.isFatal
  | .invalidMessage _ => false

end Failure

end HubPack
