namespace HubPack

inductive MessageType where
  | invocation
  | streamItem
  | completion
  | streamInvocation
  | cancelInvocation
  | ping
  | close
  deriving DecidableEq, Repr

namespace MessageType

def name : MessageType → String
  | .invocation => "invocation"
  | .streamItem => "stream-item"
  | .completion => "completion"
  | .streamInvocation => "stream-invocation"
  | .cancelInvocation => "cancel-invocation"
  | .ping => "ping"
  | .close => "close"

def code : MessageType → Nat
  | .invocation => 1
  | .streamItem => 2
  | .completion => 3
  | .streamInvocation => 4
  | .cancelInvocation => 5
  | .ping => 6
  | .close => 7

def all : List MessageType :=
  [.invocation, .streamItem, .completion, .streamInvocation, .cancelInvocation, .ping, .close]

def ofCode? (i : Int) : Option MessageType :=
  all.find? fun t => t.code = i

theorem ofCode?_eq_some_iff {i : Int} {t : MessageType} : ofCode? i = some t ↔ i = t.code := by
  constructor
  · intro h
    have found := List.find?_some h
    exact (of_decide_eq_true found).symm
  · rintro rfl
    cases t <;> decide

/-- The count of fields, its own code among them, below which a message of the type is refused. -/
def minFields : MessageType → Nat
  | .invocation | .streamInvocation => 5
  | .streamItem | .completion => 4
  | .cancelInvocation => 3
  | .close => 2
  | .ping => 1

end MessageType

end HubPack
