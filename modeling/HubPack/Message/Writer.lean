import HubPack.Message
import HubPack.Writer

/-!
Each message is the payload of one frame, an array of its type and its fields:

    invocation        [1, headers, id | nil, target, [arguments], [stream ids]?]
    stream item       [2, headers, id, item]
    completion        [3, headers, id, 1, error]  [3, headers, id, 2]  [3, headers, id, 3, result]
    stream invocation [4, headers, id, target, [arguments], [stream ids]?]
    cancel            [5, headers, id]
    ping              [6]
    close             [7, error | nil, allow reconnect?]
-/
namespace HubPack

def writeHeaders (entries : List (String × String)) : Written :=
  writeMapHeader entries.length
    ++ .join (entries.map fun (key, value) => writeString key ++ writeString value)

def writeArguments (arguments : List Value) : Written :=
  writeArrayHeader arguments.length ++ writeItems arguments

def writeStreamIds (ids : List String) : Written :=
  writeArrayHeader ids.length ++ .join (ids.map writeString)

def Outcome.fields : Outcome → List Written
  | .error text => [writeString text]
  | .void => []
  | .result value => [writeValue value]

def Message.arity : Message → Nat
  | .invocation m => 5 + m.streamIds.isSome.toNat
  | .streamItem _ => 4
  | .completion m =>
    match m.outcome with
    | .void => 4
    | _ => 5
  | .streamInvocation m => 5 + m.streamIds.isSome.toNat
  | .cancelInvocation _ => 3
  | .ping => 1
  | .close m => 2 + m.allowReconnect.isSome.toNat

def Message.fields (headers : List (String × String)) : Message → List Written
  | .invocation m =>
    [writeHeaders headers, writeStringOrNil m.id, writeString m.target,
      writeArguments m.arguments] ++ (m.streamIds.map writeStreamIds).toList
  | .streamItem m => [writeHeaders headers, writeString m.id, writeValue m.item]
  | .completion m =>
    [writeHeaders headers, writeString m.id, writeInteger m.outcome.kind.code] ++ m.outcome.fields
  | .streamInvocation m =>
    [writeHeaders headers, writeString m.id, writeString m.target,
      writeArguments m.arguments] ++ (m.streamIds.map writeStreamIds).toList
  | .cancelInvocation m => [writeHeaders headers, writeString m.id]
  | .ping => []
  | .close m => [writeStringOrNil m.error] ++ (m.allowReconnect.map writeBool).toList

/-- The payload of a message. Receivers see the same headers in every order. -/
def Message.writeAs (headers : List (String × String)) (m : Message) : Written :=
  writeArrayHeader m.arity ++ .join (writeInteger m.type.code :: m.fields headers)

def Message.headerEntries (m : Message) : List (String × String) :=
  (m.headers?.map TextMap.toList).getD []

def Message.payloadAs (headers : List (String × String)) (m : Message) : Except WireError Bytes :=
  (m.writeAs headers).toExcept

def Message.payload (m : Message) : Except WireError Bytes := m.payloadAs m.headerEntries

end HubPack
