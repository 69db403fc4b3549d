import HubPack.Binder
import HubPack.TextMap

namespace HubPack

inductive Pending where
  | result (hint : Hint)
  | stream (item : Hint)
  deriving DecidableEq, Repr

namespace Pending

/-- A stream may end with any result. -/
def resultType : Pending → Hint
  | .result hint => hint
  | .stream _ => .dynamic

def itemType : Pending → Hint
  | .result hint => hint
  | .stream item => item

end Pending

structure Registry where
  targets : TextMap (List Hint) := ∅
  pending : TextMap Pending := ∅

namespace Registry

instance : EmptyCollection Registry := ⟨{}⟩

def addTarget (r : Registry) (target : String) (parameters : List Hint) : Registry :=
  { r with targets := r.targets.insert target parameters }

/-- Also says whether the target was there. -/
def removeTarget (r : Registry) (target : String) : Bool × Registry :=
  ((r.targets.get? target).isSome, { r with targets := r.targets.erase target })

def awaitResult (r : Registry) (id : String) (result : Hint) : Registry :=
  { r with pending := r.pending.insert id (.result result) }

def awaitStream (r : Registry) (id : String) (item : Hint) : Registry :=
  { r with pending := r.pending.insert id (.stream item) }

/-- Also says whether the invocation was pending. -/
def complete (r : Registry) (id : String) : Bool × Registry :=
  ((r.pending.get? id).isSome, { r with pending := r.pending.erase id })

def binder (r : Registry) : Binder where
  parameters target := (r.targets.get? target).getD []
  result id := (r.pending.get? id).map Pending.resultType
  item id := (r.pending.get? id).map Pending.itemType

end Registry

end HubPack
