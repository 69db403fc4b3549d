import HubPack.Proofs.Stream.Errors
import HubPack.Proofs.Writing.Atomic

namespace HubPack.LengthPrefix
open Wire

def byteAt (s : Bytes) (i : Nat) : Nat := (s.getD i 0).toNat

@[simp] theorem byteAt_zero (b : UInt8) (s : Bytes) : byteAt (b :: s) 0 = b.toNat := rfl

@[simp] theorem byteAt_succ (b : UInt8) (s : Bytes) (i : Nat) :
    byteAt (b :: s) (i + 1) = byteAt s i := rfl

/-- The first `used` bytes of `s` state a length `n`. All but the last have their high bit set, and
of the `more + 1` bytes that there may be the last holds three bits. -/
structure States (more : Nat) (s : Bytes) (n used : Nat) : Prop where
  positive : 1 ≤ used
  most : used ≤ more + 1
  inside : used ≤ s.length
  continued : ∀ i, i < used - 1 → 128 ≤ byteAt s i
  ended : byteAt s (used - 1) < 128
  full : used = more + 1 → byteAt s (used - 1) ≤ 7
  value : n = ∑ i ∈ Finset.range used, byteAt s i % 128 * 128 ^ i

/-- More bytes than a length may have are there, and none of them ends one. -/
structure Overflows (more : Nat) (s : Bytes) : Prop where
  inside : more < s.length
  continued : ∀ i, i < more → 128 ≤ byteAt s i
  full : 7 < byteAt s more

section Reading

variable {more n used : Nat} {b : UInt8} {s : Bytes}

theorem states_last (small : b.toNat < 128) (room : more ≠ 0 ∨ b.toNat ≤ 7) :
    States more (b :: s) n used ↔ n = b.toNat ∧ used = 1 := by
  have value : ∑ i ∈ Finset.range 1, byteAt (b :: s) i % 128 * 128 ^ i = b.toNat := by
    rw [Finset.sum_range_one, byteAt_zero, Nat.mod_eq_of_lt small, Nat.pow_zero, Nat.mul_one]
  constructor
  · intro h
    have one : used = 1 := by
      by_contra other
      have first := h.continued 0 (by have := h.positive; omega)
      rw [byteAt_zero] at first
      omega
    subst one
    exact ⟨h.value.trans value, rfl⟩
  · rintro ⟨rfl, rfl⟩
    refine ⟨Nat.le_refl 1, by omega, by simp, nofun, small, ?_, value.symm⟩
    exact fun full => room.resolve_left fun positive => positive (by omega)

theorem not_states_overflow (large : 7 < b.toNat) : ¬States 0 (b :: s) n used := by
  intro h
  have one : used = 1 := Nat.le_antisymm h.most h.positive
  subst one
  have room := h.full rfl
  rw [byteAt_zero] at room
  omega

theorem low_of_large (large : 128 ≤ b.toNat) : b.toNat % 128 = b.toNat - 128 := by
  have bound := b.toNat_lt
  omega

theorem sum_byteAt_cons (large : 128 ≤ b.toNat) (k : Nat) :
    ∑ i ∈ Finset.range (k + 1), byteAt (b :: s) i % 128 * 128 ^ i =
      b.toNat - 128 + 128 * ∑ i ∈ Finset.range k, byteAt s i % 128 * 128 ^ i := by
  rw [Finset.sum_range_succ', Finset.mul_sum, byteAt_zero, low_of_large large, Nat.pow_zero,
    Nat.mul_one, Nat.add_comm]
  congr 1
  refine Finset.sum_congr rfl fun i _ => ?_
  rw [byteAt_succ, Nat.pow_succ]
  ring

theorem states_more (large : 128 ≤ b.toNat) :
    States (more + 1) (b :: s) n used ↔ ∃ m rest, States more s m rest ∧
      n = b.toNat - 128 + 128 * m ∧ used = rest + 1 := by
  constructor
  · intro h
    have long : 2 ≤ used := by
      by_contra short
      have one : used = 1 := by have := h.positive; omega
      have first := h.ended
      rw [one, byteAt_zero] at first
      omega
    obtain ⟨rest, rfl⟩ : ∃ rest, used = rest + 2 := ⟨used - 2, by omega⟩
    refine ⟨_, rest + 1, ⟨by omega, ?_, ?_, ?_, ?_, ?_, rfl⟩, ?_, rfl⟩
    · exact Nat.le_of_succ_le_succ h.most
    · exact Nat.le_of_succ_le_succ h.inside
    · intro i before
      exact h.continued (i + 1) (Nat.succ_lt_succ before)
    · exact h.ended
    · exact fun full => h.full (congrArg Nat.succ full)
    · exact h.value.trans (sum_byteAt_cons large _)
  · rintro ⟨m, rest, h, rfl, rfl⟩
    obtain ⟨rest, rfl⟩ : ∃ k, rest = k + 1 := ⟨rest - 1, by have := h.positive; omega⟩
    refine ⟨by omega, ?_, ?_, ?_, h.ended, ?_, ?_⟩
    · exact Nat.succ_le_succ h.most
    · exact Nat.succ_le_succ h.inside
    · intro i before
      cases i with
      | zero => exact large
      | succ i => exact h.continued i (Nat.lt_of_succ_lt_succ before)
    · exact fun full => h.full (Nat.succ.inj full)
    · rw [h.value]
      exact (sum_byteAt_cons large _).symm

theorem overflows_more (large : 128 ≤ b.toNat) :
    Overflows (more + 1) (b :: s) ↔ Overflows more s := by
  constructor
  · intro h
    refine ⟨Nat.lt_of_succ_lt_succ h.inside, fun i before => ?_, h.full⟩
    exact h.continued (i + 1) (Nat.succ_lt_succ before)
  · intro h
    refine ⟨Nat.succ_lt_succ h.inside, fun i before => ?_, h.full⟩
    cases i with
    | zero => exact large
    | succ i => exact h.continued i (Nat.lt_of_succ_lt_succ before)

theorem readWithin_eq_some_iff : readWithin more s = .ok (some (n, used)) ↔
    States more s n used := by
  induction s generalizing more n used with
  | nil =>
    constructor
    · cases more <;> nofun
    · intro h
      exact absurd (Nat.le_trans h.positive h.inside) (Nat.not_succ_le_zero 0)
  | cons b s ih =>
    cases more with
    | zero =>
      rw [readWithin]
      split
      · rename_i small
        rw [states_last (by omega) (.inr (by omega))]
        simp [eq_comm]
      · rename_i large
        constructor
        · intro failed
          cases failed
        · exact fun h => absurd h (not_states_overflow (by omega))
    | succ more =>
      rw [readWithin]
      split
      · rename_i small
        rw [states_last small (.inl (Nat.succ_ne_zero more))]
        simp [eq_comm]
      · rename_i large
        simp only [states_more (Nat.not_lt.mp large), ← ih]
        cases readWithin more s with
        | error e => simp [Except.map]
        | ok found =>
          cases found with
          | none => simp [Except.map]
          | some found =>
            constructor
            · intro read
              cases read
              exact ⟨found.1, found.2, rfl, rfl, rfl⟩
            · rintro ⟨_, _, found, rfl, rfl⟩
              cases found
              rfl

theorem readWithin_eq_error_iff {e : WireError} : readWithin more s = .error e ↔
    e = .malformedValue .lengthPrefix ∧ Overflows more s := by
  constructor
  · intro failed
    refine ⟨readWithin_error failed, ?_⟩
    induction s generalizing more with
    | nil => cases more <;> cases failed
    | cons b s ih =>
      cases more with
      | zero =>
        rw [readWithin] at failed
        split at failed
        · cases failed
        · rename_i large
          refine ⟨Nat.succ_pos _, fun i before => ?_, Nat.not_lt.mp large⟩
          exact absurd before (Nat.not_lt_zero i)
      | succ more =>
        rw [readWithin] at failed
        split at failed
        · cases failed
        · rename_i large
          rw [overflows_more (Nat.not_lt.mp large)]
          cases rest : readWithin more s with
          | error f =>
            rw [rest] at failed
            cases failed
            exact ih rest
          | ok found =>
            rw [rest] at failed
            cases failed
  · rintro ⟨rfl, h⟩
    induction s generalizing more with
    | nil => exact absurd h.inside (Nat.not_lt_zero _)
    | cons b s ih =>
      cases more with
      | zero =>
        have large : ¬b.toNat < 8 := Nat.not_lt.mpr h.full
        rw [readWithin, if_neg large]
      | succ more =>
        have large : 128 ≤ b.toNat := h.continued 0 (Nat.succ_pos more)
        rw [readWithin, if_neg (Nat.not_lt.mpr large), ih ((overflows_more large).mp h)]
        rfl

end Reading

section Writing

theorem length_encode (n : Nat) : (encode n).length = size n := by
  induction n using Nat.strongRecOn with
  | ind n ih =>
    rw [encode, size]
    split
    · rfl
    · rw [List.length_cons, ih (n / 128) (by omega), Nat.add_comm]

end Writing

section Loops

def count (n rest : Nat) : Nat :=
  if 0 < rest then count (n + 1) (rest >>> 7) else n
termination_by rest
decreasing_by
  rw [Nat.shiftRight_eq_div_pow]
  omega

/-- Puts a length into an array from place `i` on, and tells how many places it has filled; `none`
if it comes to a place that the array does not have. -/
def fill (slots : Bytes) (i rest : Nat) : Option (Bytes × Nat) :=
  if i < slots.length then
    let low := UInt8.ofNat (rest &&& 0x7f)
    let above := rest >>> 7
    if 0 < above then fill (slots.set i (low ||| 0x80)) (i + 1) above
    else some (slots.set i low, i + 1)
  else none
termination_by rest
decreasing_by
  simp only [above, Nat.shiftRight_eq_div_pow] at *
  omega

def gather (n i : Nat) : Bytes → Except WireError (Option (Nat × Nat))
  | [] => .ok none
  | b :: bs =>
    if i = maxSize - 1 ∧ 0x07 < b then .error (.malformedValue .lengthPrefix)
    else
      let n := n ||| (b &&& 0x7f).toNat <<< (7 * i)
      if b &&& 0x80 = 0 then .ok (some (n, i + 1)) else gather n (i + 1) bs

section Bits

theorem shiftRight_seven (n : Nat) : n >>> 7 = n / 128 := Nat.shiftRight_eq_div_pow n 7

theorem and_low (n : Nat) : n &&& 0x7f = n % 128 := Nat.and_two_pow_sub_one_eq_mod n 7

theorem or_high {n : Nat} (small : n < 128) :
    UInt8.ofNat n ||| 0x80 = UInt8.ofNat (128 + n) := by
  have all : ∀ n : Fin 128, UInt8.ofNat n ||| 0x80 = UInt8.ofNat (128 + n) := by decide
  exact all ⟨n, small⟩

theorem toNat_and_low (b : UInt8) : (b &&& 0x7f).toNat = b.toNat % 128 := and_low b.toNat

theorem and_high_eq_zero_iff (b : UInt8) : b &&& 0x80 = 0 ↔ b.toNat < 128 := by
  have bound := b.toNat_lt
  have bit : b.toNat &&& 2 ^ 7 = b.toNat / 2 ^ 7 % 2 * 2 ^ 7 := by
    rw [Nat.and_two_pow, Nat.toNat_testBit]
  rw [← UInt8.toNat_inj, UInt8.toNat_and]
  change b.toNat &&& 2 ^ 7 = 0 ↔ _
  omega

theorem or_shiftLeft {n i : Nat} (small : n < 128 ^ i) (m : Nat) :
    n ||| m <<< (7 * i) = n + m * 128 ^ i := by
  have power : 128 ^ i = 2 ^ (7 * i) := by rw [Nat.pow_mul]
  rw [power] at small ⊢
  rw [Nat.shiftLeft_eq, Nat.or_comm, Nat.mul_comm, ← Nat.two_pow_add_eq_or_of_lt small,
    Nat.add_comm]

end Bits

theorem count_eq (n m : Nat) : count n (m >>> 7) + 1 = n + size m := by
  induction m using Nat.strongRecOn generalizing n with
  | ind m ih =>
    rw [count, size, shiftRight_seven]
    by_cases small : m < 128
    · rw [if_neg (by omega), if_pos small]
    · rw [if_pos (by omega), if_neg small, ih (m / 128) (by omega)]
      omega

theorem take_set_succ {slots : Bytes} {i : Nat} (inside : i < slots.length) (b : UInt8) :
    (slots.set i b).take (i + 1) = slots.take i ++ [b] := by
  rw [List.take_succ_eq_append_getElem (by rwa [List.length_set]), List.getElem_set_self,
    List.take_set_of_le (Nat.le_refl i)]

theorem fill_last {slots : Bytes} {i n : Nat} (inside : i < slots.length) (small : n < 128) :
    fill slots i n = some (slots.set i (UInt8.ofNat n), i + 1) := by
  rw [fill, if_pos inside, shiftRight_seven, and_low, Nat.div_eq_of_lt small,
    Nat.mod_eq_of_lt small]
  rfl

theorem fill_more {slots : Bytes} {i n : Nat} (inside : i < slots.length) (large : 128 ≤ n) :
    fill slots i n = fill (slots.set i (UInt8.ofNat (128 + n % 128))) (i + 1) (n / 128) := by
  have above : 0 < n / 128 := Nat.div_pos large (by decide)
  rw [fill, if_pos inside, shiftRight_seven, and_low, ← or_high (Nat.mod_lt n (by decide))]
  exact if_pos above

theorem fill_eq {n i : Nat} {slots : Bytes} (room : i + (encode n).length ≤ slots.length) :
    ∃ filled, fill slots i n = some (filled, i + (encode n).length) ∧
      filled.take (i + (encode n).length) = slots.take i ++ encode n := by
  -- seven bits less to put one place further on
  induction n using Nat.strongRecOn generalizing i slots with
  | ind n ih =>
    rw [encode] at room ⊢
    by_cases small : n < 128
    · rw [if_pos small] at room ⊢
      rw [fill_last room small]
      exact ⟨_, rfl, take_set_succ room _⟩
    · rw [if_neg small] at room ⊢
      generalize low : UInt8.ofNat (128 + n % 128) = b at room ⊢
      rw [List.length_cons] at room ⊢
      have inside : i < slots.length := by omega
      have room' : i + 1 + (encode (n / 128)).length ≤ (slots.set i b).length := by
        rw [List.length_set]
        omega
      obtain ⟨filled, found, bytes⟩ := ih (n / 128) (by omega) room'
      rw [take_set_succ inside, List.append_assoc, List.singleton_append] at bytes
      have place : i + ((encode (n / 128)).length + 1) = i + 1 + (encode (n / 128)).length := by
        omega
      rw [fill_more inside (Nat.not_lt.mp small), low, place]
      exact ⟨filled, found, bytes⟩

theorem gather_cons {n i : Nat} (small : n < 128 ^ i) (b : UInt8) (s : Bytes) :
    gather n i (b :: s) =
      if i = maxSize - 1 ∧ 7 < b.toNat then .error (.malformedValue .lengthPrefix)
      else if b.toNat < 128 then .ok (some (n + b.toNat % 128 * 128 ^ i, i + 1))
      else gather (n + b.toNat % 128 * 128 ^ i) (i + 1) s := by
  simp only [gather, or_shiftLeft small, toNat_and_low, and_high_eq_zero_iff]
  rfl

theorem add_digit_lt {n i : Nat} (small : n < 128 ^ i) (k : Nat) :
    n + k % 128 * 128 ^ i < 128 ^ (i + 1) := by
  have low : k % 128 + 1 ≤ 128 := Nat.mod_lt _ (by decide)
  calc
    n + k % 128 * 128 ^ i < (k % 128 + 1) * 128 ^ i := by
      rw [Nat.add_mul, Nat.one_mul]
      omega
    _ ≤ 128 * 128 ^ i := Nat.mul_le_mul_right _ low
    _ = 128 ^ (i + 1) := by rw [Nat.pow_succ, Nat.mul_comm]

theorem gather_eq {more i n : Nat} (s : Bytes) (places : i + more = maxSize - 1)
    (small : n < 128 ^ i) : gather n i (s.take (more + 1)) =
      (readWithin more s).map (Option.map fun (m, used) => (n + m * 128 ^ i, i + used)) := by
  -- what is joined so far is below `128 ^ i`, and the bits of the next byte come above it
  induction s generalizing more i n with
  | nil => cases more <;> rfl
  | cons b s ih =>
    rw [List.take_succ_cons, gather_cons small]
    cases more with
    | zero =>
      rw [readWithin]
      by_cases room : b.toNat < 8
      · rw [if_neg (by omega), if_pos (by omega), if_pos room, Nat.mod_eq_of_lt (by omega)]
        rfl
      · rw [if_pos ⟨places, by omega⟩, if_neg room]
        rfl
    | succ more =>
      rw [readWithin, if_neg (by omega)]
      by_cases last : b.toNat < 128
      · rw [if_pos last, if_pos last, Nat.mod_eq_of_lt last]
        rfl
      · have value (m : Nat) : n + b.toNat % 128 * 128 ^ i + m * 128 ^ (i + 1) =
            n + (b.toNat - 128 + 128 * m) * 128 ^ i := by
          rw [low_of_large (Nat.not_lt.mp last), Nat.pow_succ]
          ring
        rw [if_neg last, if_neg last, ih (by omega) (add_digit_lt small b.toNat)]
        cases readWithin more s with
        | error e => rfl
        | ok found =>
          cases found with
          | none => rfl
          | some found =>
            simp only [Except.map, Option.map_some, value, Nat.add_assoc, Nat.add_comm 1]

end Loops

section Whole

variable {s : Bytes} {n used : Nat}

theorem read_eq_some_iff : read s = .ok (some (n, used)) ↔ States 4 s n used :=
  readWithin_eq_some_iff

theorem lt_of_form {more : Nat} {e : Bytes} (form : Prefix more n e) : n < 8 * 128 ^ more := by
  induction form with
  | full small => exact small
  | @last more n small =>
    have positive : 0 < 128 ^ more := Nat.pow_pos (by decide)
    rw [Nat.pow_succ]
    omega
  | more small _ ih =>
    rw [Nat.pow_succ]
    omega

theorem le_maxLength_of_read (found : read s = .ok (some (n, used))) : n ≤ maxLength := by
  obtain ⟨e, -, form, -, -⟩ := readWithin_sound found
  exact Nat.le_of_lt_succ (lt_of_form form)

theorem encode_form (small : n ≤ maxLength) : Prefix 4 n (encode n) :=
  encode_prefix (Nat.lt_succ_of_le small)

theorem read_encode (small : n ≤ maxLength) (rest : Bytes) :
    read (encode n ++ rest) = .ok (some (n, size n)) := by
  rw [read_complete (encode_form small), length_encode]

theorem size_le_maxSize (small : n ≤ maxLength) : size n ≤ maxSize :=
  (read_eq_some_iff.mp (read_encode small [])).most

theorem put_eq_ok (small : n ≤ maxLength) (dst : Bytes) : put n dst = .ok () (dst ++ encode n) := by
  rw [put, write, if_neg (Nat.not_lt.mpr small)]
  rfl

theorem put_eq_error (large : maxLength < n) (dst : Bytes) :
    put n dst = .error (.frameTooLarge n maxLength) dst := by
  rw [put, write, if_pos large]
  rfl

theorem fill_encode (small : n ≤ maxLength) :
    ∃ filled, fill (List.replicate maxSize 0) 0 n = some (filled, size n) ∧
      filled.take (size n) = encode n := by
  have room : 0 + (encode n).length ≤ (List.replicate maxSize (0 : UInt8)).length := by
    rw [Nat.zero_add, List.length_replicate, length_encode]
    exact size_le_maxSize small
  have filled := fill_eq room
  rwa [Nat.zero_add, length_encode] at filled

theorem gather_eq_read (s : Bytes) : gather 0 0 (s.take maxSize) = read s := by
  refine (gather_eq s (Nat.zero_add _) Nat.one_pos).trans ?_
  simp only [Nat.zero_add, Nat.pow_zero, Nat.mul_one, read]
  cases readWithin (maxSize - 1) s with
  | error e => rfl
  | ok found => cases found <;> rfl

end Whole

/-- A length is read exactly if up to five bytes state it, and a length of up to 31 bits is written
in the fewest bytes that state it, behind any buffer and readable before any others; a greater one
is refused and the buffer left as it is. The loops need no sixth place, and agree. -/
theorem length_exact :
    (∀ (s : Bytes) (n used : Nat), read s = .ok (some (n, used)) ↔ States 4 s n used) ∧
    (∀ (s : Bytes) (n used : Nat), read s = .ok (some (n, used)) → n ≤ maxLength) ∧
    (∀ n ≤ maxLength, ∃ w : Bytes, w.length = size n ∧
      (∀ dst, put n dst = .ok () (dst ++ w)) ∧
      (∃ filled, fill (List.replicate maxSize 0) 0 n = some (filled, size n) ∧
        filled.take (size n) = w) ∧
      (∀ rest, read (w ++ rest) = .ok (some (n, size n))) ∧
      ∀ (s : Bytes) (used : Nat), read s = .ok (some (n, used)) → size n ≤ s.length) ∧
    (∀ n dst, maxLength < n → put n dst = .error (.frameTooLarge n maxLength) dst) ∧
    (∀ n, count 1 (n >>> 7) = size n) ∧
    ∀ s : Bytes, gather 0 0 (s.take maxSize) = read s := by
  refine ⟨fun _ _ _ => read_eq_some_iff, fun _ _ _ => le_maxLength_of_read, ?_,
    fun n dst large => put_eq_error large dst, fun n => ?_, gather_eq_read⟩
  · intro n small
    refine ⟨encode n, length_encode n, put_eq_ok small, fill_encode small, read_encode small, ?_⟩
    intro s used found
    calc
      size n = (encode n).length := (length_encode n).symm
      _ ≤ used := length_encode_le_used found
      _ ≤ s.length := (read_eq_some_iff.mp found).inside
  · have counted := count_eq 1 n
    omega

theorem length_exact_samples :
    (∃ w : Bytes, w.length = 2 ∧ put 300 [7] = .ok () ([7] ++ w) ∧
      ∀ rest, read (w ++ rest) = .ok (some (300, 2))) ∧
    States 4 [0xac, 0x82, 0x00, 9] 300 3 ∧ States 4 [0xff, 0xff, 0xff, 0xff, 7] 0x7fffffff 5 ∧
    put 0x80000000 [7] = .error (.frameTooLarge 0x80000000 0x7fffffff) [7] := by
  obtain ⟨states, -, written, refused, -, -⟩ := length_exact
  have two : size 300 = 2 := by cbv
  obtain ⟨w, length, put, -, back, -⟩ := written 300 (by decide)
  rw [two] at length back
  refine ⟨⟨w, length, put [7], back⟩, ?_, ?_, refused _ [7] (by decide)⟩
  · exact (states _ _ _).mp (by cbv)
  · exact (states _ _ _).mp (by cbv)

end HubPack.LengthPrefix
