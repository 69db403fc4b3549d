import HubPack.Message
import HubPack.Proofs.Wire.Value

/-!
The wire forms of messages: an array of the code of the type, the fields that the type lays out,
and fields that a later version appended. The count that heads the array decides which of the
optional fields are there.
-/
namespace HubPack.Wire

/-- Any list of names and texts. Of two entries with one name the later counts. -/
inductive HeaderMap : Headers → Bytes → Prop where
  | mk {headers : Headers} {entries : List (String × String)} {e : Bytes} :
      MapOf Text Text entries e → (∀ key, headers.get? key = entries.reverse.lookup key) →
      HeaderMap headers e

inductive OrNil {α : Type} (P : α → Bytes → Prop) : Option α → Bytes → Prop where
  | none {e : Bytes} : Nil e → OrNil P none e
  | some {a : α} {e : Bytes} : P a e → OrNil P (some a) e

/-- A field that must not be nil where it is there. -/
inductive Given {α : Type} (P : α → Bytes → Prop) : Option α → Bytes → Prop where
  | mk {a : α} {e : Bytes} : P a e → Given P (some a) e

/-- The last field of a layout, there if the array has at least `least` members of its `n`. -/
inductive Slot {α : Type} (P : Option α → Bytes → Prop) (least n : Nat) :
    Option α → List Bytes → Prop where
  | absent : n < least → Slot P least n none []
  | present {a : Option α} {e : Bytes} : least ≤ n → P a e → Slot P least n a [e]

def typeCode : Message → Int
  | .invocation _ => 1
  | .streamItem _ => 2
  | .completion _ => 3
  | .streamInvocation _ => 4
  | .cancelInvocation _ => 5
  | .ping => 6
  | .close _ => 7

def resultKind : Outcome → Int
  | .error _ => 1
  | .void => 2
  | .result _ => 3

inductive Carried (limit : Nat) : Outcome → List Bytes → Prop where
  | error {text : String} {e : Bytes} : Text text e → Carried limit (.error text) [e]
  | void : Carried limit .void []
  | result {v : Value} {e : Bytes} : Within limit v e → Carried limit (.result v) [e]

inductive Fields (limit n : Nat) : Message → List Bytes → Prop where
  | invocation {m : Invocation} {headers id target arguments : Bytes} {streamIds : List Bytes} :
      HeaderMap m.headers headers → OrNil Text m.id id → Text m.target target →
      ArrayOf (Within limit) m.arguments arguments →
      Slot (OrNil (ArrayOf Text)) 6 n m.streamIds streamIds →
      Fields limit n (.invocation m) ([headers, id, target, arguments] ++ streamIds)
  | streamInvocation {m : StreamInvocation} {headers id target arguments : Bytes}
      {streamIds : List Bytes} :
      HeaderMap m.headers headers → Text m.id id → Text m.target target →
      ArrayOf (Within limit) m.arguments arguments →
      Slot (OrNil (ArrayOf Text)) 6 n m.streamIds streamIds →
      Fields limit n (.streamInvocation m) ([headers, id, target, arguments] ++ streamIds)
  | streamItem {m : StreamItem} {headers id item : Bytes} :
      HeaderMap m.headers headers → Text m.id id → Within limit m.item item →
      Fields limit n (.streamItem m) [headers, id, item]
  | completion {m : Completion} {headers id kind : Bytes} {carried : List Bytes} :
      HeaderMap m.headers headers → Text m.id id → Integer (resultKind m.outcome) kind →
      Carried limit m.outcome carried →
      Fields limit n (.completion m) ([headers, id, kind] ++ carried)
  | cancelInvocation {m : CancelInvocation} {headers id : Bytes} :
      HeaderMap m.headers headers → Text m.id id →
      Fields limit n (.cancelInvocation m) [headers, id]
  | ping : Fields limit n .ping []
  | close {m : Close} {error : Bytes} {allow : List Bytes} :
      OrNil Text m.error error → Slot (Given Flag) 3 n m.allowReconnect allow →
      Fields limit n (.close m) (error :: allow)

/-- What later versions may append: any values, but nothing to a completion. -/
def Appended (limit : Nat) (m : Message) (extra : List Bytes) : Prop :=
  (∀ e ∈ extra, ∃ v, Within limit v e) ∧ (m.type = .completion → extra = [])

inductive Represents (limit : Nat) (m : Message) : Bytes → Prop where
  | mk {n : Nat} {head code : Bytes} {fields extra : List Bytes} :
      Length .array n head → n = 1 + fields.length + extra.length →
      Integer (typeCode m) code → Fields limit n m fields → Appended limit m extra →
      Represents limit m (head ++ (code ++ (fields.flatten ++ extra.flatten)))

/-- The beginning of a message of a later version: its code has no type yet. -/
inductive Unknown : Bytes → Prop where
  | mk {n : Nat} {code : Int} {head e : Bytes} : Length .array n head → 0 < n → Integer code e →
      code < 2 ^ 63 → code < 1 ∨ 7 < code → Unknown (head ++ e)

inductive Payload (limit : Nat) (m : Message) : Bytes → Prop where
  | mk {e : Bytes} : Represents limit m e → (tail : Bytes) → Payload limit m (e ++ tail)

end HubPack.Wire
