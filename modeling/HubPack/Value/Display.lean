import HubPack.Number.Shortest
import HubPack.Text.Quoted
import HubPack.Value

namespace HubPack.Value

mutual

def display : Value → String
  | .nil => "nil"
  | .bool b => if b then "true" else "false"
  | .int i => toString i.toInt
  | .uint u => toString u.toNat
  | .float f => Shortest.text f
  | .string s => Text.quote s
  | .bytes bs => s!"<{bs.length} bytes>"
  | .array items => "[" ++ ", ".intercalate (displayItems items) ++ "]"
  | .map entries => "\x7b" ++ ", ".intercalate (displayEntries entries) ++ "\x7d"
  | .ext tag data => s!"<ext {tag.toInt}: {data.length} bytes>"

def displayItems : List Value → List String
  | [] => []
  | v :: vs => display v :: displayItems vs

def displayEntries : List (Value × Value) → List String
  | [] => []
  | (k, v) :: rest => (display k ++ ": " ++ display v) :: displayEntries rest

end

end HubPack.Value
