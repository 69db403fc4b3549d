import HubPack.Hint

namespace HubPack

structure Binder where
  /-- Types of the arguments of a target; those beyond the list are unknown. -/
  parameters : String → List Hint
  result : String → Option Hint
  item : String → Option Hint := result

def Binder.untyped : Binder where
  parameters _ := []
  result _ := none

/-- The same binder through a handle, which passes every question on. -/
def Binder.forward (b : Binder) : Binder where
  parameters target := b.parameters target
  result id := b.result id
  item id := b.item id

end HubPack
