import HubPack.Bytes

/-!
Text as bytes of UTF-8. Decoding accepts exactly the well-formed byte sequences; of any other it
says at which index the first character goes wrong, and after how many bytes.
-/
namespace HubPack.Utf8

inductive Fault where
  /-- No character begins at `index`; the `count` bytes from there belong together. -/
  | invalid (count index : Nat)
  /-- The bytes end inside the character that begins at `index`. -/
  | incomplete (index : Nat)
  deriving DecidableEq, Repr

def Fault.message : Fault → String
  | .invalid count index => s!"invalid utf-8 sequence of {count} bytes from index {index}"
  | .incomplete index => s!"incomplete utf-8 byte sequence from index {index}"

def encodeChar (c : Char) : Bytes :=
  let n := c.toNat
  if n < 0x80 then [UInt8.ofNat n]
  else if n < 0x800 then [UInt8.ofNat (0xc0 + n / 64), UInt8.ofNat (0x80 + n % 64)]
  else if n < 0x10000 then
    [UInt8.ofNat (0xe0 + n / 4096), UInt8.ofNat (0x80 + n / 64 % 64), UInt8.ofNat (0x80 + n % 64)]
  else
    [UInt8.ofNat (0xf0 + n / 262144), UInt8.ofNat (0x80 + n / 4096 % 64),
      UInt8.ofNat (0x80 + n / 64 % 64), UInt8.ofNat (0x80 + n % 64)]

def encode (s : String) : Bytes :=
  s.toList.flatMap encodeChar

inductive Start where
  | char (c : Char) (rest : Bytes)
  | invalid (count : Nat)
  | incomplete

/-- Reads the `left` bytes that complete a character of which `read` bytes, with the payload
bits `bits`, are read. The next byte lies between `low` and `high`, later ones between 80 and bf. -/
def continueChar : (left read : Nat) → (low high : Nat) → (bits : Nat) → Bytes → Start
  | 0, _, _, _, bits, rest => .char (Char.ofNat bits) rest
  | _ + 1, _, _, _, _, [] => .incomplete
  | left + 1, read, low, high, bits, b :: rest =>
    if low ≤ b.toNat ∧ b.toNat ≤ high then
      continueChar left (read + 1) 0x80 0xbf (bits * 64 + (b.toNat - 0x80)) rest
    else .invalid read

/-! Bounds on the byte after a first byte `n` of more than one. They keep out forms longer than
need be, surrogates, and numbers above 10ffff. -/

def secondLow (n : Nat) : Nat :=
  if n = 0xe0 then 0xa0 else if n = 0xf0 then 0x90 else 0x80

def secondHigh (n : Nat) : Nat :=
  if n = 0xed then 0x9f else if n = 0xf4 then 0x8f else 0xbf

def start (b : UInt8) (bs : Bytes) : Start :=
  let n := b.toNat
  if n < 0x80 then .char (Char.ofNat n) bs
  else if n < 0xc2 then .invalid 1
  else if n < 0xe0 then continueChar 1 1 (secondLow n) (secondHigh n) (n - 0xc0) bs
  else if n < 0xf0 then continueChar 2 1 (secondLow n) (secondHigh n) (n - 0xe0) bs
  else if n < 0xf5 then continueChar 3 1 (secondLow n) (secondHigh n) (n - 0xf0) bs
  else .invalid 1

theorem length_continueChar {left read low high bits : Nat} {bs rest : Bytes} {c : Char}
    (h : continueChar left read low high bits bs = .char c rest) :
    rest.length ≤ bs.length := by
  induction left generalizing read low high bits bs with
  | zero =>
    simp only [continueChar, Start.char.injEq] at h
    simp [h.2]
  | succ left ih =>
    cases bs with
    | nil => simp [continueChar] at h
    | cons b bs =>
      rw [continueChar] at h
      split at h
      · have := ih h
        simp only [List.length_cons]
        omega
      · simp at h

theorem length_start {b : UInt8} {bs rest : Bytes} {c : Char} (h : start b bs = .char c rest) :
    rest.length ≤ bs.length := by
  simp only [start] at h
  split at h
  · simp only [Start.char.injEq] at h
    simp [h.2]
  · repeat' split at h
    all_goals first | exact length_continueChar h | simp at h

def decodeFrom (index : Nat) : Bytes → Except Fault (List Char)
  | [] => .ok []
  | b :: bs =>
    match h : start b bs with
    | .char c rest =>
      have := length_start h
      (c :: ·) <$> decodeFrom (index + c.utf8Size) rest
    | .invalid count => .error (.invalid count index)
    | .incomplete => .error (.incomplete index)
termination_by bs => bs.length

def decode (bs : Bytes) : Except Fault String :=
  String.ofList <$> decodeFrom 0 bs

end HubPack.Utf8
