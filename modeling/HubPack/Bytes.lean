namespace HubPack

abbrev Bytes := List UInt8

/-- The low `w` bytes of `n`. -/
def bigEndian : Nat → Nat → Bytes
  | 0, _ => []
  | w + 1, n => UInt8.ofNat (n >>> (8 * w)) :: bigEndian w n

def ofBigEndian (bs : Bytes) : Nat :=
  bs.foldl (fun n b => 256 * n + b.toNat) 0

def capacity (w : Nat) : Nat := 1 <<< (8 * w)

/-- The integer whose pattern of `w` bytes is `n`. -/
def signedOf (w n : Nat) : Int :=
  if 2 * n < capacity w then n else n - capacity w

def patternOf (w : Nat) (i : Int) : Nat :=
  (i % capacity w).toNat

@[simp] theorem length_bigEndian (w n : Nat) : (bigEndian w n).length = w := by
  induction w with
  | zero => rfl
  | succ w ih => simp [bigEndian, ih]

end HubPack
