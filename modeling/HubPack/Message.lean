import HubPack.Error
import HubPack.TextMap
import HubPack.Value

namespace HubPack

abbrev Headers := TextMap String

/-- Asks for one result; without an id, for none. -/
structure Invocation where
  headers : Headers := ∅
  id : Option String := none
  target : String
  arguments : List Value
  streamIds : Option (List String) := none

structure StreamInvocation where
  headers : Headers := ∅
  id : String
  target : String
  arguments : List Value
  streamIds : Option (List String) := none

structure StreamItem where
  headers : Headers := ∅
  id : String
  item : Value

inductive Outcome where
  | error (text : String)
  | void
  | result (value : Value)

structure Completion where
  headers : Headers := ∅
  id : String
  outcome : Outcome

structure CancelInvocation where
  headers : Headers := ∅
  id : String

structure Close where
  error : Option String := none
  allowReconnect : Option Bool := none

inductive Message where
  | invocation (m : Invocation)
  | streamItem (m : StreamItem)
  | completion (m : Completion)
  | streamInvocation (m : StreamInvocation)
  | cancelInvocation (m : CancelInvocation)
  | ping
  | close (m : Close)

inductive ResultKind where
  | error
  | void
  | result
  deriving DecidableEq, Repr

namespace ResultKind

def code : ResultKind → Nat
  | .error => 1
  | .void => 2
  | .result => 3

def all : List ResultKind := [.error, .void, .result]

def ofCode? (i : Int) : Option ResultKind :=
  all.find? fun k => k.code = i

theorem ofCode?_eq_some_iff {i : Int} {k : ResultKind} : ofCode? i = some k ↔ i = k.code := by
  constructor
  · intro h
    have found := List.find?_some h
    exact (of_decide_eq_true found).symm
  · rintro rfl
    cases k <;> decide

def fields : ResultKind → Nat
  | .error | .result => 5
  | .void => 4

end ResultKind

namespace Outcome

def kind : Outcome → ResultKind
  | .error _ => .error
  | .void => .void
  | .result _ => .result

/-- An invocation ends with a result or with an error, not with both. -/
def ofParts (result : Option Value) (error : Option String) : Except Failure Outcome :=
  match result, error with
  | some _, some _ =>
    .error (.invalidMessage "completion cannot carry both a result and an error")
  | some value, none => .ok (.result value)
  | none, some text => .ok (.error text)
  | none, none => .ok .void

def result? : Outcome → Option Value
  | .result value => some value
  | _ => none

def error? : Outcome → Option String
  | .error text => some text
  | _ => none

def equal : Outcome → Outcome → Bool
  | .error a, .error b => a == b
  | .void, .void => true
  | .result a, .result b => a.equal b
  | _, _ => false

end Outcome

namespace Message

def type : Message → MessageType
  | .invocation _ => .invocation
  | .streamItem _ => .streamItem
  | .completion _ => .completion
  | .streamInvocation _ => .streamInvocation
  | .cancelInvocation _ => .cancelInvocation
  | .ping => .ping
  | .close _ => .close

def headers? : Message → Option Headers
  | .invocation m => some m.headers
  | .streamItem m => some m.headers
  | .completion m => some m.headers
  | .streamInvocation m => some m.headers
  | .cancelInvocation m => some m.headers
  | .ping | .close _ => none

def id? : Message → Option String
  | .invocation m => m.id
  | .streamItem m => some m.id
  | .completion m => some m.id
  | .streamInvocation m => some m.id
  | .cancelInvocation m => some m.id
  | .ping | .close _ => none

/-- Belongs to a stream of items, the completion that ends it apart. -/
def isStream (m : Message) : Bool :=
  match m.type with
  | .streamInvocation | .streamItem | .cancelInvocation => true
  | _ => false

def equal : Message → Message → Bool
  | .invocation a, .invocation b =>
    a.headers == b.headers && a.id == b.id && a.target == b.target
      && Value.equalItems a.arguments b.arguments && a.streamIds == b.streamIds
  | .streamInvocation a, .streamInvocation b =>
    a.headers == b.headers && a.id == b.id && a.target == b.target
      && Value.equalItems a.arguments b.arguments && a.streamIds == b.streamIds
  | .streamItem a, .streamItem b => a.headers == b.headers && a.id == b.id && a.item.equal b.item
  | .completion a, .completion b =>
    a.headers == b.headers && a.id == b.id && a.outcome.equal b.outcome
  | .cancelInvocation a, .cancelInvocation b => a.headers == b.headers && a.id == b.id
  | .ping, .ping => true
  | .close a, .close b => a.error == b.error && a.allowReconnect == b.allowReconnect
  | _, _ => false

end Message

end HubPack
