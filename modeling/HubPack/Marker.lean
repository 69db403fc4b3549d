import HubPack.Bytes

/-!
Markers: the byte that opens each value. Every byte is the marker of one form, so that `ofByte`
and `toByte` are inverse to each other.
-/
namespace HubPack

/-- A `k` counts the doublings of a width. It starts from one byte, and from two in `array` and
`map`, from four in `float`. -/
inductive Marker where
  | fixPos (n : Fin 128)
  | fixMap (n : Fin 16)
  | fixArray (n : Fin 16)
  | fixStr (n : Fin 32)
  | nil
  | reserved
  | bool (b : Bool)
  | bin (k : Fin 3)
  | ext (k : Fin 3)
  | float (k : Fin 2)
  | uint (k : Fin 4)
  | int (k : Fin 4)
  | fixExt (k : Fin 5)
  | str (k : Fin 3)
  | array (k : Fin 2)
  | map (k : Fin 2)
  | fixNeg (n : Fin 32)
  deriving DecidableEq, Repr

/-- Where a length stands: in the marker itself, or in a number of bytes after it. -/
inductive Extent where
  | here (n : Nat)
  | next (width : Nat)
  deriving DecidableEq, Repr

inductive Form where
  | nil
  | bool (b : Bool)
  | integer (i : Int)
  | unsigned (width : Nat)
  | signed (width : Nat)
  | single
  | double
  | string (e : Extent)
  | bytes (e : Extent)
  | array (e : Extent)
  | map (e : Extent)
  | ext (e : Extent)
  | reserved
  deriving DecidableEq, Repr

namespace Marker

def code : Marker → Nat
  | .fixPos n => n
  | .fixMap n => 0x80 + n
  | .fixArray n => 0x90 + n
  | .fixStr n => 0xa0 + n
  | .nil => 0xc0
  | .reserved => 0xc1
  | .bool b => if b then 0xc3 else 0xc2
  | .bin k => 0xc4 + k
  | .ext k => 0xc7 + k
  | .float k => 0xca + k
  | .uint k => 0xcc + k
  | .int k => 0xd0 + k
  | .fixExt k => 0xd4 + k
  | .str k => 0xd9 + k
  | .array k => 0xdc + k
  | .map k => 0xde + k
  | .fixNeg n => 0xe0 + n

def toByte (m : Marker) : UInt8 := UInt8.ofNat m.code

def ofByte (b : UInt8) : Marker :=
  let n := b.toNat
  have bound : n < 256 := b.toNat_lt
  if h : n < 0x80 then .fixPos ⟨n, h⟩
  else if h : n < 0x90 then .fixMap ⟨n - 0x80, by omega⟩
  else if h : n < 0xa0 then .fixArray ⟨n - 0x90, by omega⟩
  else if h : n < 0xc0 then .fixStr ⟨n - 0xa0, by omega⟩
  else if n = 0xc0 then .nil
  else if n = 0xc1 then .reserved
  else if h : n < 0xc4 then .bool (n == 0xc3)
  else if h : n < 0xc7 then .bin ⟨n - 0xc4, by omega⟩
  else if h : n < 0xca then .ext ⟨n - 0xc7, by omega⟩
  else if h : n < 0xcc then .float ⟨n - 0xca, by omega⟩
  else if h : n < 0xd0 then .uint ⟨n - 0xcc, by omega⟩
  else if h : n < 0xd4 then .int ⟨n - 0xd0, by omega⟩
  else if h : n < 0xd9 then .fixExt ⟨n - 0xd4, by omega⟩
  else if h : n < 0xdc then .str ⟨n - 0xd9, by omega⟩
  else if h : n < 0xde then .array ⟨n - 0xdc, by omega⟩
  else if h : n < 0xe0 then .map ⟨n - 0xde, by omega⟩
  else .fixNeg ⟨n - 0xe0, by omega⟩

theorem ofByte_toByte (m : Marker) : ofByte m.toByte = m := by
  cases m with
  | nil | reserved => rfl
  | _ n => revert n; decide +kernel

theorem toByte_inj {m m' : Marker} (h : m.toByte = m'.toByte) : m = m' := by
  rw [← m.ofByte_toByte, h, m'.ofByte_toByte]

theorem toByte_ofByte (b : UInt8) : (ofByte b).toByte = b := by
  have all : ∀ n : Fin 256, (ofByte (UInt8.ofNat n)).toByte = UInt8.ofNat n := by decide +kernel
  simpa using all ⟨b.toNat, b.toNat_lt⟩

def form : Marker → Form
  | .fixPos n => .integer n
  | .fixNeg n => .integer (n - 32)
  | .uint k => .unsigned (1 <<< k.val)
  | .int k => .signed (1 <<< k.val)
  | .float k => if k = 0 then .single else .double
  | .nil => .nil
  | .bool b => .bool b
  | .fixStr n => .string (.here n)
  | .str k => .string (.next (1 <<< k.val))
  | .bin k => .bytes (.next (1 <<< k.val))
  | .fixArray n => .array (.here n)
  | .array k => .array (.next (2 <<< k.val))
  | .fixMap n => .map (.here n)
  | .map k => .map (.next (2 <<< k.val))
  | .fixExt k => .ext (.here (1 <<< k.val))
  | .ext k => .ext (.next (1 <<< k.val))
  | .reserved => .reserved

def name : Marker → String
  | .fixPos n => s!"FixPos({n.val})"
  | .fixNeg n => "FixNeg(" ++ toString ((n.val : Int) - 32) ++ ")"
  | .fixMap n => s!"FixMap({n.val})"
  | .fixArray n => s!"FixArray({n.val})"
  | .fixStr n => s!"FixStr({n.val})"
  | .nil => "Null"
  | .reserved => "Reserved"
  | .bool b => if b then "True" else "False"
  | .bin k => wide "Bin" 8 k
  | .ext k => wide "Ext" 8 k
  | .float k => wide "F" 32 k
  | .uint k => wide "U" 8 k
  | .int k => wide "I" 8 k
  | .fixExt k => wide "FixExt" 1 k
  | .str k => wide "Str" 8 k
  | .array k => wide "Array" 16 k
  | .map k => wide "Map" 16 k
where
  wide (stem : String) (least k : Nat) : String := stem ++ toString (least <<< k)

/-- The doublings of one byte that hold `n`, if two suffice. -/
def lengthClass (n : Nat) : Fin 3 :=
  if n < 0x100 then 0 else if n < 0x10000 then 1 else 2

/-! The marker of the shortest form of each value. -/

def forString (n : Nat) : Marker :=
  if h : n < 32 then .fixStr ⟨n, h⟩ else .str (lengthClass n)

def forBytes (n : Nat) : Marker := .bin (lengthClass n)

def forArray (n : Nat) : Marker :=
  if h : n < 16 then .fixArray ⟨n, h⟩ else .array (if n < 0x10000 then 0 else 1)

def forMap (n : Nat) : Marker :=
  if h : n < 16 then .fixMap ⟨n, h⟩ else .map (if n < 0x10000 then 0 else 1)

def forExt (n : Nat) : Marker :=
  if n = 1 then .fixExt 0
  else if n = 2 then .fixExt 1
  else if n = 4 then .fixExt 2
  else if n = 8 then .fixExt 3
  else if n = 16 then .fixExt 4
  else .ext (lengthClass n)

def forUnsigned (n : Nat) : Marker :=
  if h : n < 128 then .fixPos ⟨n, h⟩
  else if n < 0x100000000 then .uint ((lengthClass n).castLE (by decide))
  else .uint 3

def forNegative (i : Int) : Marker :=
  if -32 ≤ i then .fixNeg (Fin.ofNat 32 (i + 32).toNat)
  else if -0x80 ≤ i then .int 0
  else if -0x8000 ≤ i then .int 1
  else if -0x80000000 ≤ i then .int 2
  else .int 3

def forInteger (i : Int) : Marker :=
  if 0 ≤ i then forUnsigned i.toNat else forNegative i

end Marker

/-- The width of what a form writes right after its marker: a number, or a length. -/
def Form.width : Form → Nat
  | .unsigned w | .signed w => w
  | .single => 4
  | .double => 8
  | .string e | .bytes e | .array e | .map e | .ext e =>
    match e with
    | .here _ => 0
    | .next w => w
  | _ => 0

def Marker.header (m : Marker) (n : Nat) : Bytes :=
  m.toByte :: bigEndian m.form.width n

end HubPack
