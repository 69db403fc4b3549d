import HubPack.Binder
import HubPack.Message
import HubPack.Reader

/-!
Reading messages. Fields that a later version appends are read and dropped, and messages of unknown
types are passed over whole. Values move towards the types that a binder knows as they are read.
-/
namespace HubPack

def violation {α : Type} (cause : Violation) : Reader α := throw (.protocolViolation cause)

/-- Of two headers with one name the later counts. -/
def readHeaders : Reader Headers := do
  let n ← readMapHeader
  .ofList <$> readMany (readPair readString readString) n

def readArguments (limit : Nat) (binder : Binder) (target : String) : Reader (List Value) := do
  let n ← readArrayHeader
  coerceArguments (binder.parameters target) <$> readMany (readValue limit) n

/-- The sixth field of an invocation, which may be missing or nil. -/
def readStreamIds (fields : Nat) : Reader (Option (List String)) := do
  if fields < 6 then
    pure none
  else if ← peekNil then
    readNil
    pure none
  else
    let n ← readArrayHeader
    some <$> readMany readString n

def readHinted (limit : Nat) (hint : Option Hint) : Reader Value :=
  coerceTo hint <$> readValue limit

def readOutcome (limit : Nat) (binder : Binder) (id : String) : ResultKind → Reader Outcome
  | .error => .error <$> readString
  | .void => pure .void
  | .result => .result <$> readHinted limit (binder.result id)

/-- The result kind fixes the count of fields: an error comes without a result, and nothing
follows a void one. -/
def readCompletion (limit : Nat) (binder : Binder) (fields : Nat) : Reader Completion := do
  let headers ← readHeaders
  let id ← readString
  let code := (← readInt).toInt
  match ResultKind.ofCode? code with
  | none => violation (.resultKind code)
  | some kind =>
    if fields < kind.fields then
      violation (.resultFields code fields kind.fields)
    else if kind.fields < fields then
      malformed (.extraFields code (fields - kind.fields))
    else
      let outcome ← readOutcome limit binder id kind
      pure { headers, id, outcome }

/-- The body of a message of a known type that has `fields` fields in all, and the count of those
that it reads. -/
def readBody (limit : Nat) (binder : Binder) (fields : Nat) : MessageType → Reader (Message × Nat)
  | .invocation => do
    let headers ← readHeaders
    let id ← readStringOrNil
    let target ← readString
    let arguments ← readArguments limit binder target
    let streamIds ← readStreamIds fields
    pure (.invocation { headers, id, target, arguments, streamIds }, min fields 6)
  | .streamInvocation => do
    let headers ← readHeaders
    let id ← readString
    let target ← readString
    let arguments ← readArguments limit binder target
    let streamIds ← readStreamIds fields
    pure (.streamInvocation { headers, id, target, arguments, streamIds }, min fields 6)
  | .streamItem => do
    let headers ← readHeaders
    let id ← readString
    let item ← readHinted limit (binder.item id)
    pure (.streamItem { headers, id, item }, 4)
  | .completion => do
    pure (.completion (← readCompletion limit binder fields), fields)
  | .cancelInvocation => do
    let headers ← readHeaders
    let id ← readString
    pure (.cancelInvocation { headers, id }, 3)
  | .ping => pure (.ping, 1)
  | .close => do
    let error ← readStringOrNil
    if fields < 3 then
      pure (.close { error }, 2)
    else
      let allow ← readBool
      pure (.close { error, allowReconnect := some allow }, 3)

def readKnown (limit : Nat) (binder : Binder) (fields : Nat) (type : MessageType) :
    Reader Message := do
  if fields < type.minFields then
    violation (.fewFields type fields type.minFields)
  else
    let (message, read) ← readBody limit binder fields type
    let _ ← readMany (skipValue limit) (fields - read)
    pure message

/-- A message; `none` if its type is unknown, the fields then being left unread. -/
def readMessage (limit : Nat) (binder : Binder) : Reader (Option Message) := do
  let fields ← readArrayHeader
  if fields = 0 then
    violation .emptyMessage
  else
    let code := (← readInt).toInt
    match MessageType.ofCode? code with
    | none => pure none
    | some type => some <$> readKnown limit binder fields type

end HubPack
