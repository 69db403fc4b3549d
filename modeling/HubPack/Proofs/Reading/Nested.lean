import HubPack.Proofs.Reading.Orderly
import HubPack.Proofs.Reading.Value

/-!
The read of a value comes to the reads of its members, of their members, and so on. Each of them
begins further on in the same bytes, and the first that fails ends the whole read: its error is the
error of the value, and the bytes that it leaves are those that the value leaves.
-/
namespace HubPack

/-- A container begins at `bs`, and the first of its `n` members at `first`. An entry of a map is
two members, a key and a value. -/
inductive ContainerAt (bs : Bytes) : Nat → Bytes → Prop where
  | array {n : Nat} {first : Bytes} : readArrayHeader bs = .ok n first → ContainerAt bs n first
  | map {n : Nat} {first : Bytes} : readMapHeader bs = .ok n first → ContainerAt bs (2 * n) first

/-- The read of a value at `bs`, below which containers may nest `levels` deep, comes to the read of
a value at `inner`, below which they may nest `l` deep. -/
inductive Reaches (limit : Nat) : Nat → Bytes → Nat → Bytes → Prop where
  | self {levels : Nat} {bs : Bytes} : Reaches limit levels bs levels bs
  | member {levels l n k : Nat} {bs first place inner : Bytes} {before : List Value} :
      ContainerAt bs n first → k < n →
      readMany (readValueWithin limit levels) k first = .ok before place →
      Reaches limit levels place l inner → Reaches limit (levels + 1) bs l inner

section Members

variable {α β : Type} {r : Reader α} {e : WireError} {bs mid rest : Bytes}

theorem readMany_succ_ok {k : Nat} {as : List α} (h : readMany r (k + 1) bs = .ok as rest) :
    ∃ a mid tail, r bs = .ok a mid ∧ readMany r k mid = .ok tail rest := by
  obtain ⟨a, mid, head, h⟩ := bind_eq_ok_iff.mp h
  obtain ⟨tail, left, later, done⟩ := bind_eq_ok_iff.mp h
  cases done
  exact ⟨a, mid, tail, head, later⟩

theorem readMany_error {k n : Nat} {as : List α} (h : readMany r k bs = .ok as mid)
    (failed : r mid = .error e rest) (more : k < n) : readMany r n bs = .error e rest := by
  induction k generalizing bs as n with
  | zero =>
    cases h
    obtain ⟨n, rfl⟩ : ∃ l, n = l + 1 := ⟨n - 1, by omega⟩
    exact bind_of_error failed
  | succ k ih =>
    obtain ⟨a, next, tail, head, later⟩ := readMany_succ_ok h
    obtain ⟨n, rfl⟩ : ∃ l, n = l + 1 := ⟨n - 1, by omega⟩
    exact (bind_of_ok head).trans (bind_of_error (ih later (by omega)))

theorem readPairs_error {k n : Nat} {as : List α} (h : readMany r k bs = .ok as mid)
    (failed : r mid = .error e rest) (more : k < 2 * n) :
    readMany (readPair r r) n bs = .error e rest := by
  -- an entry less is two members less
  induction n generalizing bs as k with
  | zero => omega
  | succ n ih =>
    cases k with
    | zero =>
      cases h
      exact bind_of_error (bind_of_error failed)
    | succ k =>
      obtain ⟨a, next, tail, first, later⟩ := readMany_succ_ok h
      cases k with
      | zero =>
        cases later
        exact bind_of_error ((bind_of_ok first).trans (bind_of_error failed))
      | succ k =>
        obtain ⟨b, after, others, second, later⟩ := readMany_succ_ok later
        have pair : readPair r r bs = .ok (a, b) after :=
          (bind_of_ok first).trans (bind_of_ok second)
        exact (bind_of_ok pair).trans (bind_of_error (ih later (by omega)))

end Members

variable {limit levels l n k : Nat} {bs first place inner rest : Bytes} {e : WireError}

theorem readValueWithin_member_error {before : List Value} (container : ContainerAt bs n first)
    (more : k < n) (done : readMany (readValueWithin limit levels) k first = .ok before place)
    (failed : readValueWithin limit levels place = .error e rest) :
    readValueWithin limit (levels + 1) bs = .error e rest := by
  rw [readValueWithin]
  cases container with
  | array header =>
    obtain ⟨head, length, rfl⟩ := reads_arrayHeader.sound header
    obtain ⟨m, x, tail, hm, -, rfl⟩ := announces_array.length_iff.mp length
    rw [List.cons_append] at header ⊢
    rw [bind_of_ok (peekMarker_cons m _), hm]
    exact (bind_of_ok header).trans (map_of_error (readMany_error done failed more))
  | map header =>
    obtain ⟨head, length, rfl⟩ := reads_mapHeader.sound header
    obtain ⟨m, x, tail, hm, -, rfl⟩ := announces_map.length_iff.mp length
    rw [List.cons_append] at header ⊢
    rw [bind_of_ok (peekMarker_cons m _), hm]
    exact (bind_of_ok header).trans (map_of_error (readPairs_error done failed more))

theorem ContainerAt.suffix (h : ContainerAt bs n first) : first <:+ bs := by
  cases h with
  | array header => exact orderly_arrayHeader.suffix_of_ok header
  | map header => exact orderly_mapHeader.suffix_of_ok header

namespace Reaches

theorem readValueWithin_error (h : Reaches limit levels bs l inner)
    (failed : readValueWithin limit l inner = .error e rest) :
    readValueWithin limit levels bs = .error e rest := by
  induction h with
  | self => exact failed
  | member container more done _ ih =>
    exact readValueWithin_member_error container more done (ih failed)

theorem suffix (h : Reaches limit levels bs l inner) : inner <:+ bs := by
  induction h with
  | self => exact List.suffix_refl _
  | @member levels l n k bs first place inner before container more done _ ih =>
    have members := ((orderly_within limit levels).many k).suffix_of_ok done
    exact ih.trans (members.trans container.suffix)

end Reaches

end HubPack
