import HubPack.LengthPrefix

/-!
The wire forms of frames. A length may be written with more bytes than it needs, as long as they
are not more than five and the fifth holds three bits.
-/
namespace HubPack.Wire

/-- A length of which `more` bytes at most follow the first. -/
inductive Prefix : (more : Nat) → Nat → Bytes → Prop where
  | full {n : Nat} : n < 8 → Prefix 0 n [UInt8.ofNat n]
  | last {more n : Nat} : n < 128 → Prefix (more + 1) n [UInt8.ofNat n]
  | more {more low n : Nat} {e : Bytes} : low < 128 → Prefix more n e →
      Prefix (more + 1) (low + 128 * n) (UInt8.ofNat (128 + low) :: e)

inductive Frame (limit : Nat) (payload : Bytes) : Bytes → Prop where
  | mk {head : Bytes} : Prefix 4 payload.length head → payload.length ≤ limit →
      Frame limit payload (head ++ payload)

end HubPack.Wire
