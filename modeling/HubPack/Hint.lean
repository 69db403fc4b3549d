import HubPack.Value

namespace HubPack

inductive Hint where
  | dynamic
  | bool
  | int
  | float
  | string
  | bytes
  | list (element : Hint)
  | map (key value : Hint)
  deriving DecidableEq, Repr

/-- Numbers and texts move to the hinted kind: a float to an integer only if it is one, bytes to
a string only if they are text. Containers of the hinted kind are coerced element by element. -/
def Hint.coerce : Hint → Value → Value
  | .int, .float f =>
    match f.toInt64? with
    | some i => .int i
    | none => .float f
  | .float, .int i => .float (.ofInt i.toInt)
  | .float, .uint u => .float (.ofInt u.toNat)
  | .string, .bytes bs =>
    match Utf8.decode bs with
    | .ok s => .string s
    | .error _ => .bytes bs
  | .bytes, .string s => .bytes (Utf8.encode s)
  | .list element, .array items => .array (items.map element.coerce)
  | .map key value, .map entries =>
    .map (entries.map fun (k, v) => (key.coerce k, value.coerce v))
  | _, v => v

def coerceTo : Option Hint → Value → Value
  | some hint, v => hint.coerce v
  | none, v => v

/-- Coerces each argument to the type in its place; surplus arguments pass unchanged. -/
def coerceArguments : List Hint → List Value → List Value
  | hint :: hints, v :: vs => hint.coerce v :: coerceArguments hints vs
  | _, vs => vs

end HubPack
