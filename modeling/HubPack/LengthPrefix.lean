import HubPack.Error

/-!
The length in front of a frame: seven bits a byte, the lowest first, every byte but the last with
its high bit set. Five bytes are the most, and the fifth holds three bits, so that a length has
31 bits.
-/
namespace HubPack.LengthPrefix

def maxSize : Nat := 5

def maxLength : Nat := 0x7fffffff

def size (n : Nat) : Nat :=
  if n < 128 then 1 else 1 + size (n / 128)
termination_by n
decreasing_by omega

def encode (n : Nat) : Bytes :=
  if n < 128 then [UInt8.ofNat n] else UInt8.ofNat (128 + n % 128) :: encode (n / 128)
termination_by n
decreasing_by omega

def write (n : Nat) : Except WireError Bytes :=
  if maxLength < n then .error (.frameTooLarge n maxLength) else .ok (encode n)

/-- Reads a length of which at most `more` bytes follow the next, the last of which holds three
bits; `none` if the bytes end inside it. Also gives the count of bytes read. -/
def readWithin : (more : Nat) → Bytes → Except WireError (Option (Nat × Nat))
  | _, [] => .ok none
  | 0, b :: _ =>
    if b.toNat < 8 then .ok (some (b.toNat, 1)) else .error (.malformedValue .lengthPrefix)
  | more + 1, b :: bs =>
    if b.toNat < 128 then .ok (some (b.toNat, 1))
    else (readWithin more bs).map (Option.map fun (n, used) => (b.toNat - 128 + 128 * n, used + 1))

def read : Bytes → Except WireError (Option (Nat × Nat)) := readWithin (maxSize - 1)

theorem readWithin_used {more n used : Nat} {bs : Bytes}
    (h : readWithin more bs = .ok (some (n, used))) : 0 < used ∧ used ≤ bs.length := by
  induction bs generalizing more n used with
  | nil => simp [readWithin] at h
  | cons b bs ih =>
    cases more with
    | zero =>
      rw [readWithin] at h
      split at h
      · simp only [Except.ok.injEq, Option.some.injEq, Prod.mk.injEq] at h
        simp [← h.2]
      · simp at h
    | succ more =>
      rw [readWithin] at h
      split at h
      · simp only [Except.ok.injEq, Option.some.injEq, Prod.mk.injEq] at h
        simp [← h.2]
      · cases hr : readWithin more bs with
        | error e => simp [hr, Except.map] at h
        | ok r =>
          cases r with
          | none => simp [hr, Except.map] at h
          | some found =>
            simp only [hr, Except.map, Option.map_some, Except.ok.injEq, Option.some.injEq,
              Prod.mk.injEq] at h
            have := ih hr
            simp only [List.length_cons]
            omega

end HubPack.LengthPrefix
