import HubPack.Error
import HubPack.Value

/-!
Writing values in their shortest forms. A write that fails keeps what its parts wrote before the
one that failed.
-/
namespace HubPack

/-- What a write appends, and the error that stopped it. -/
structure Written where
  bytes : Bytes
  error : Option WireError := none
  deriving DecidableEq, Repr

namespace Written

/-- The second write happens only if the first succeeds. -/
def append (a b : Written) : Written :=
  match a.error with
  | none => ⟨a.bytes ++ b.bytes, b.error⟩
  | some _ => a

instance : Append Written := ⟨append⟩

def empty : Written := ⟨[], none⟩

def join (parts : List Written) : Written := parts.foldr (· ++ ·) empty

def failed (e : WireError) : Written := ⟨[], some e⟩

def toExcept (w : Written) : Except WireError Bytes :=
  match w.error with
  | none => .ok w.bytes
  | some e => .error e

end Written

def writeNil : Written := ⟨Marker.nil.header 0, none⟩

def writeBool (b : Bool) : Written := ⟨(Marker.bool b).header 0, none⟩

/-- The shortest form of an integer of 64 bits; of those of one width, the unsigned one. -/
def writeInteger (i : Int) : Written :=
  let m := Marker.forInteger i
  ⟨m.header (patternOf m.form.width i), none⟩

def writeFloat (f : Binary64) : Written := ⟨(Marker.float (.last 1)).header f.bits.toNat, none⟩

/-- A length field of text or bytes has 32 bits and holds the length modulo `2 ^ 32`. -/
def writeString (s : String) : Written :=
  let bs := Utf8.encode s
  let n := bs.length % 0x100000000
  ⟨(Marker.forString n).header n ++ bs, none⟩

def writeBytes (bs : Bytes) : Written :=
  let n := bs.length % 0x100000000
  ⟨(Marker.forBytes n).header n ++ bs, none⟩

def writeCounted (what : Counted) (marker : Nat → Marker) (n : Nat) : Written :=
  if n < 0x100000000 then ⟨(marker n).header n, none⟩
  else .failed (.serialization (.tooLong what n))

def writeArrayHeader (n : Nat) : Written := writeCounted .array .forArray n

def writeMapHeader (n : Nat) : Written := writeCounted .map .forMap n

def writeExt (tag : Int8) (data : Bytes) : Written :=
  writeCounted .ext .forExt data.length ++ ⟨tag.toUInt8 :: data, none⟩

def writeStringOrNil : Option String → Written
  | some s => writeString s
  | none => writeNil

mutual

def writeValue : Value → Written
  | .nil => writeNil
  | .bool b => writeBool b
  | .int i => writeInteger i.toInt
  | .uint u => writeInteger u.toNat
  | .float f => writeFloat f
  | .string s => writeString s
  | .bytes bs => writeBytes bs
  | .array items => writeArrayHeader items.length ++ writeItems items
  | .map entries => writeMapHeader entries.length ++ writeEntries entries
  | .ext tag data => writeExt tag data

def writeItems : List Value → Written
  | [] => .empty
  | v :: vs => writeValue v ++ writeItems vs

def writeEntries : List (Value × Value) → Written
  | [] => .empty
  | (k, v) :: rest => writeValue k ++ writeValue v ++ writeEntries rest

end

/-- What has been written so far, one write after the other. -/
structure Writer where
  bytes : Bytes := []
  deriving DecidableEq, Repr

namespace Writer

def size (w : Writer) : Nat := w.bytes.length

def isEmpty (w : Writer) : Bool := w.bytes.isEmpty

/-- Gives up the writer for its bytes. -/
def finish (w : Writer) : Bytes := w.bytes

def write (w : Writer) (part : Written) : Except WireError Unit × Writer :=
  (part.toExcept.map fun _ => (), ⟨w.bytes ++ part.bytes⟩)

/-- Writes up to the first one that fails. -/
def writeAll (w : Writer) : List Written → Except WireError Unit × Writer
  | [] => (.ok (), w)
  | part :: parts =>
    match w.write part with
    | (.ok (), w) => w.writeAll parts
    | failed => failed

@[simp] theorem size_write (w : Writer) (part : Written) :
    (w.write part).2.size = w.size + part.bytes.length := List.length_append

theorem isEmpty_iff {w : Writer} : w.isEmpty ↔ w.size = 0 := by
  rw [isEmpty, size, List.isEmpty_iff, List.length_eq_zero_iff]

end Writer

end HubPack
