import HubPack.Error
import HubPack.Value

/-!
Reading values of any width. A read answers from the unread bytes alone and leaves the rest of
them unread, also when it fails: a marker is read before its length, a length before its body.
-/
namespace HubPack

/-- A read of an `α`. The state is the bytes that are not read yet. -/
abbrev Reader := EStateM WireError Bytes

def malformed {α : Type} (cause : Malformed) : Reader α := throw (.malformedValue cause)

def peekMarker : Reader Marker := do
  match ← get with
  | [] => throw .insufficientData
  | b :: _ => pure (.ofByte b)

def readMarker : Reader Marker := do
  match ← get with
  | [] => throw .insufficientData
  | b :: rest =>
    set rest
    pure (.ofByte b)

/-- A number of `width` bytes. If fewer are left, they are all lost. -/
def readUnsigned (width : Nat) : Reader Nat := do
  let (number, rest) := (← get).splitAt width
  set rest
  if number.length < width then throw .insufficientData
  pure (ofBigEndian number)

def readSigned (width : Nat) : Reader Int := do
  pure (signedOf width (← readUnsigned width))

/-- The next `n` bytes. If fewer are left, none are read. -/
def takeBytes (n : Nat) : Reader Bytes := do
  let (body, rest) := (← get).splitAt n
  if body.length < n then throw .insufficientData
  set rest
  pure body

def readExtent : Extent → Reader Nat
  | .here n => pure n
  | .next width => readUnsigned width

def peekNil : Reader Bool := do
  pure ((← peekMarker).form == .nil)

def readNil : Reader Unit := do
  let m ← readMarker
  match m.form with
  | .nil => pure ()
  | _ => malformed (.unexpected .nil m)

def readBool : Reader Bool := do
  let m ← readMarker
  match m.form with
  | .bool b => pure b
  | _ => malformed (.unexpected .bool m)

/-- An integer of any width, from `-2 ^ 63` to `2 ^ 64 - 1`. -/
def readInteger : Reader Int := do
  let m ← readMarker
  match m.form with
  | .integer i => pure i
  | .unsigned width => pure (← readUnsigned width)
  | .signed width => readSigned width
  | _ => malformed (.unexpected .integer m)

/-- An integer of any width that fits a signed one of 64 bits. -/
def readInt : Reader Int64 := do
  let i ← readInteger
  if i < 0x8000000000000000 then pure (.ofInt i) else malformed .integerRange

def readString : Reader String := do
  let m ← readMarker
  match m.form with
  | .string e =>
    match Utf8.decode (← takeBytes (← readExtent e)) with
    | .ok s => pure s
    | .error fault => malformed (.utf8 fault)
  | _ => malformed (.unexpected .string m)

def readStringOrNil : Reader (Option String) := do
  if ← peekNil then
    readNil
    pure none
  else
    pure (some (← readString))

def readBytes : Reader Bytes := do
  let m ← readMarker
  match m.form with
  | .bytes e => takeBytes (← readExtent e)
  | _ => malformed (.unexpected .bytes m)

def readArrayHeader : Reader Nat := do
  let m ← readMarker
  match m.form with
  | .array e => readExtent e
  | _ => malformed (.unexpected .array m)

def readMapHeader : Reader Nat := do
  let m ← readMarker
  match m.form with
  | .map e => readExtent e
  | _ => malformed (.unexpected .map m)

def readExt (e : Extent) : Reader Value := do
  let n ← readExtent e
  let tag ← readUnsigned 1
  pure (.ext (UInt8.ofNat tag).toInt8 (← takeBytes n))

def readMany {α : Type} (read : Reader α) : Nat → Reader (List α)
  | 0 => pure []
  | n + 1 => do
    let a ← read
    let as ← readMany read n
    pure (a :: as)

def readPair {α β : Type} (first : Reader α) (second : Reader β) : Reader (α × β) := do
  let a ← first
  let b ← second
  pure (a, b)

/-- A value below which containers may nest `levels` deep, `limit` being what they may in all. -/
def readValueWithin (limit levels : Nat) : Reader Value := do
  let m ← peekMarker
  match m.form with
  | .nil =>
    readNil
    pure .nil
  | .bool _ => .bool <$> readBool
  | .integer _ | .unsigned _ | .signed _ => .ofInteger <$> readInteger
  | .single =>
    let _ ← readMarker
    (fun n => .float (.ofBinary32 (UInt32.ofNat n))) <$> readUnsigned 4
  | .double =>
    let _ ← readMarker
    (fun n => .float ⟨UInt64.ofNat n⟩) <$> readUnsigned 8
  | .string _ => .string <$> readString
  | .bytes _ => .bytes <$> readBytes
  | .array _ =>
    let n ← readArrayHeader
    match levels with
    | 0 => malformed (.nesting limit)
    | levels + 1 => .array <$> readMany (readValueWithin limit levels) n
  | .map _ =>
    let n ← readMapHeader
    match levels with
    | 0 => malformed (.nesting limit)
    | levels + 1 =>
      let value := readValueWithin limit levels
      .map <$> readMany (readPair value value) n
  | .ext e =>
    let _ ← readMarker
    readExt e
  | .reserved => malformed (.unexpected .value m)

def readValue (limit : Nat) : Reader Value := readValueWithin limit limit

def skipValue (limit : Nat) : Reader Unit := do
  let _ ← readValue limit

def readMessageType : Reader MessageType := do
  let code ← readInt
  match MessageType.ofCode? code.toInt with
  | some type => pure type
  | none => throw (.unknownMessageType code.toInt)

end HubPack
