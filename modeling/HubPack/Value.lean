import HubPack.Number.Binary64
import HubPack.Text.Utf8

namespace HubPack

/-- Readers give `uint` only for numbers above the greatest `Int64`; one built by hand may hold
any, and stays different from the `int` of the same number. -/
inductive Value where
  | nil
  | bool (b : Bool)
  | int (i : Int64)
  | uint (u : UInt64)
  | float (f : Binary64)
  | string (s : String)
  | bytes (bs : Bytes)
  | array (items : List Value)
  | map (entries : List (Value × Value))
  | ext (tag : Int8) (data : Bytes)

namespace Value

instance : Inhabited Value := ⟨.nil⟩

def ofInteger (i : Int) : Value :=
  if i < 0x8000000000000000 then .int (Int64.ofInt i) else .uint (UInt64.ofNat i.toNat)

def ofFields (fields : List (String × Value)) : Value :=
  .map (fields.map fun (key, value) => (.string key, value))

def kind : Value → String
  | .nil => "nil"
  | .bool _ => "bool"
  | .int _ | .uint _ => "int"
  | .float _ => "float"
  | .string _ => "string"
  | .bytes _ => "bytes"
  | .array _ => "array"
  | .map _ => "map"
  | .ext .. => "ext"

def isNil : Value → Bool
  | .nil => true
  | _ => false

def bool? : Value → Option Bool
  | .bool b => some b
  | _ => none

def integer? : Value → Option Int
  | .int i => some i.toInt
  | .uint u => some u.toNat
  | _ => none

def int64? (v : Value) : Option Int64 :=
  v.integer?.bind fun i => if i < 0x8000000000000000 then some (Int64.ofInt i) else none

def uint64? (v : Value) : Option UInt64 :=
  v.integer?.bind fun i => if 0 ≤ i then some (UInt64.ofNat i.toNat) else none

/-- The number as a float; integers round to the nearest one. -/
def float? : Value → Option Binary64
  | .float f => some f
  | v => v.integer?.map Binary64.ofInt

def string? : Value → Option String
  | .string s => some s
  | _ => none

def bytes? : Value → Option Bytes
  | .bytes bs => some bs
  | _ => none

def array? : Value → Option (List Value)
  | .array items => some items
  | _ => none

def map? : Value → Option (List (Value × Value))
  | .map entries => some entries
  | _ => none

/-- What a map holds first under a text key. -/
def get? (v : Value) (key : String) : Option Value := do
  let entries ← v.map?
  let entry ← entries.find? fun entry => entry.1.string? == some key
  pure entry.2

mutual

/-- Equality, with floats compared as numbers: a value that holds a NaN differs from itself. -/
def equal : Value → Value → Bool
  | .nil, .nil => true
  | .bool a, .bool b => a == b
  | .int a, .int b => a == b
  | .uint a, .uint b => a == b
  | .float a, .float b => a.equal b
  | .string a, .string b => a == b
  | .bytes a, .bytes b => a == b
  | .array a, .array b => equalItems a b
  | .map a, .map b => equalEntries a b
  | .ext s a, .ext t b => s == t && a == b
  | _, _ => false

def equalItems : List Value → List Value → Bool
  | [], [] => true
  | a :: as, b :: bs => equal a b && equalItems as bs
  | _, _ => false

def equalEntries : List (Value × Value) → List (Value × Value) → Bool
  | [], [] => true
  | (j, a) :: as, (k, b) :: bs => equal j k && equal a b && equalEntries as bs
  | _, _ => false

end

end Value

end HubPack
