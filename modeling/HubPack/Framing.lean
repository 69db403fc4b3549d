import HubPack.LengthPrefix

namespace HubPack

/-- Frames of limited size. The limit is one that a length prefix can state. -/
structure Framing where
  maxPayload : Nat
  le_maxLength : maxPayload ≤ LengthPrefix.maxLength

/-- Where a payload stands in a buffer: from `start` up to `stop`, not included. -/
structure Span where
  start : Nat
  stop : Nat
  deriving DecidableEq, Repr

def Span.of (s : Span) (src : Bytes) : Bytes :=
  (src.take s.stop).drop s.start

namespace Framing

def defaultMax : Nat := 0x1000000

def ofMax (n : Nat) : Framing := ⟨min n LengthPrefix.maxLength, Nat.min_le_right ..⟩

instance : Inhabited Framing := ⟨ofMax defaultMax⟩

/-- The first payload of a buffer. A length above the limit is an error before its bytes are
there. -/
def locate (f : Framing) (src : Bytes) : Except WireError Span :=
  match LengthPrefix.read src with
  | .error e => .error e
  | .ok none => .error (.incompleteFrame 1)
  | .ok (some (length, start)) =>
    let stop := start + length
    if f.maxPayload < length then .error (.frameTooLarge length f.maxPayload)
    else if src.length < stop then .error (.incompleteFrame (stop - src.length))
    else .ok ⟨start, stop⟩

theorem locate_ok {f : Framing} {src : Bytes} {span : Span} (h : f.locate src = .ok span) :
    0 < span.start ∧ span.start ≤ span.stop ∧ span.stop ≤ src.length := by
  simp only [locate] at h
  split at h
  · cases h
  · cases h
  · rename_i length start found
    have used := LengthPrefix.readWithin_used found
    split at h
    · cases h
    · split at h
      · cases h
      · cases h
        simp only
        omega

/-- The first payload, and the bytes that its frame takes; `none` if it is not all there. -/
def first? (f : Framing) (src : Bytes) : Except WireError (Option (Bytes × Nat)) :=
  match f.locate src with
  | .ok span => .ok (some (span.of src, span.stop))
  | .error (.incompleteFrame _) => .ok none
  | .error e => .error e

def take (f : Framing) (src : Bytes) : Except WireError (Option Bytes × Bytes) :=
  (f.first? src).map fun
    | some (payload, used) => (some payload, src.drop used)
    | none => (none, src)

def append (f : Framing) (payload dst : Bytes) : Except WireError Bytes :=
  if f.maxPayload < payload.length then .error (.frameTooLarge payload.length f.maxPayload)
  else (LengthPrefix.write payload.length).map fun length => dst ++ (length ++ payload)

end Framing

end HubPack
