import Mathlib
import HubPack.Framing
import HubPack.Proofs.Wire.Frame

namespace HubPack
open Wire

namespace LengthPrefix

theorem readWithin_complete {more n : Nat} {e : Bytes} (h : Prefix more n e) (rest : Bytes) :
    readWithin more (e ++ rest) = .ok (some (n, e.length)) := by
  induction h with
  | full small =>
    have byte : (UInt8.ofNat _).toNat = _ :=
      UInt8.toNat_ofNat_of_lt' (Nat.lt_trans small (by decide))
    rw [List.cons_append, readWithin, byte, if_pos small]
    rfl
  | last small =>
    have byte : (UInt8.ofNat _).toNat = _ :=
      UInt8.toNat_ofNat_of_lt' (Nat.lt_trans small (by decide))
    rw [List.cons_append, readWithin, byte, if_pos small]
    rfl
  | @more more low n e small _ ih =>
    have byte : (UInt8.ofNat (128 + low)).toNat = 128 + low :=
      UInt8.toNat_ofNat_of_lt' (by simp only [UInt8.size]; omega)
    rw [List.cons_append, readWithin, byte, if_neg (by omega), ih, Nat.add_sub_cancel_left]
    rfl

theorem read_complete {n : Nat} {e : Bytes} (h : Prefix 4 n e) (rest : Bytes) :
    read (e ++ rest) = .ok (some (n, e.length)) := readWithin_complete h rest

theorem readWithin_sound {more n used : Nat} {bs : Bytes}
    (h : readWithin more bs = .ok (some (n, used))) :
    ∃ e rest, Prefix more n e ∧ bs = e ++ rest ∧ used = e.length := by
  induction bs generalizing more n used with
  | nil => cases more <;> cases h
  | cons b bs ih =>
    have byte : UInt8.ofNat b.toNat = b := UInt8.ofNat_toNat
    cases more with
    | zero =>
      rw [readWithin] at h
      split at h
      · rename_i small
        cases h
        have form := Prefix.full small
        rw [byte] at form
        exact ⟨[b], bs, form, rfl, rfl⟩
      · cases h
    | succ more =>
      rw [readWithin] at h
      split at h
      · rename_i small
        cases h
        have form : Prefix (more + 1) _ _ := .last small
        rw [byte] at form
        exact ⟨[b], bs, form, rfl, rfl⟩
      · rename_i large
        cases hr : readWithin more bs with
        | error e => simp [hr, Except.map] at h
        | ok found =>
          cases found with
          | none => simp [hr, Except.map] at h
          | some found =>
            rw [hr] at h
            cases h
            obtain ⟨e, rest, written, rfl, used⟩ := ih hr
            have bound := b.toNat_lt
            have high : 128 + (b.toNat - 128) = b.toNat := by omega
            have form : Prefix (more + 1) (b.toNat - 128 + 128 * _) _ := .more (by omega) written
            rw [high, byte] at form
            exact ⟨b :: e, rest, form, rfl, by rw [used]; rfl⟩

theorem encode_prefix {more n : Nat} (h : n < 8 * 128 ^ more) : Prefix more n (encode n) := by
  induction more generalizing n with
  | zero =>
    rw [encode, if_pos (by omega)]
    exact .full (by omega)
  | succ more ih =>
    rw [encode]
    split
    · rename_i small
      exact .last small
    · rw [Nat.pow_succ] at h
      have above : n / 128 < 8 * 128 ^ more := by omega
      have form := Prefix.more (Nat.mod_lt n (by decide : 0 < 128)) (ih above)
      rwa [Nat.mod_add_div] at form

theorem length_encode_le {more n : Nat} {e : Bytes} (h : Prefix more n e) :
    (encode n).length ≤ e.length := by
  induction h with
  | full small => simp [encode, Nat.lt_trans small (by decide : 8 < 128)]
  | last small => simp [encode, small]
  | @more _ low n e small _ ih =>
    rw [encode]
    split
    · simp
    · have above : (low + 128 * n) / 128 = n := by omega
      simpa [above] using ih

theorem length_encode_le_used {bs : Bytes} {n used : Nat} (h : read bs = .ok (some (n, used))) :
    (encode n).length ≤ used := by
  obtain ⟨e, _, form, -, rfl⟩ := readWithin_sound h
  exact length_encode_le form

end LengthPrefix

namespace Framing

theorem locate_whole {f : Framing} {payload head : Bytes} (length : Prefix 4 payload.length head)
    (small : payload.length ≤ f.maxPayload) (rest : Bytes) :
    f.locate (head ++ payload ++ rest) = .ok ⟨head.length, head.length + payload.length⟩ := by
  rw [locate, List.append_assoc, LengthPrefix.read_complete length]
  simp only
  rw [if_neg (by omega), if_neg (by simp)]

theorem locate_long {f : Framing} {n : Nat} {head : Bytes} (length : Prefix 4 n head)
    (long : f.maxPayload < n) (rest : Bytes) :
    f.locate (head ++ rest) = .error (.frameTooLarge n f.maxPayload) := by
  rw [locate, LengthPrefix.read_complete length]
  simp only [if_pos long]

theorem locate_complete {f : Framing} {payload frame : Bytes}
    (h : Frame f.maxPayload payload frame) (rest : Bytes) :
    ∃ span, f.locate (frame ++ rest) = .ok span ∧ span.stop = frame.length ∧
      span.of (frame ++ rest) = payload := by
  obtain @⟨head, length, bound⟩ := h
  have size : (head ++ payload).length = head.length + payload.length := List.length_append
  refine ⟨⟨head.length, head.length + payload.length⟩, locate_whole length bound rest, ?_, ?_⟩
  · exact size.symm
  · rw [Span.of, List.take_left' size, List.drop_left' rfl]

theorem locate_sound {f : Framing} {src : Bytes} {span : Span} (h : f.locate src = .ok span) :
    ∃ frame rest, Frame f.maxPayload (span.of src) frame ∧ src = frame ++ rest ∧
      span.stop = frame.length := by
  rw [locate] at h
  split at h
  · cases h
  · cases h
  · rename_i length start found
    obtain ⟨head, tail, written, rfl, rfl⟩ := LengthPrefix.readWithin_sound found
    simp only at h
    split at h
    · cases h
    · split at h
      · cases h
      · rename_i small whole
        cases h
        rw [List.length_append] at whole
        have payload : (Span.mk head.length (head.length + length)).of (head ++ tail)
            = tail.take length := by
          rw [Span.of, List.take_length_add_append, List.drop_left' rfl]
        have size : (tail.take length).length = length := by
          rw [List.length_take]
          omega
        rw [payload]
        refine ⟨head ++ tail.take length, tail.drop length, .mk ?_ ?_, ?_, ?_⟩
        · rwa [size]
        · omega
        · rw [List.append_assoc, List.take_append_drop]
        · rw [List.length_append, size]

theorem append_eq (f : Framing) (payload dst : Bytes) : f.append payload dst =
    if f.maxPayload < payload.length then .error (.frameTooLarge payload.length f.maxPayload)
    else .ok (dst ++ (LengthPrefix.encode payload.length ++ payload)) := by
  have most := f.le_maxLength
  rw [append]
  split
  · rfl
  · rw [LengthPrefix.write, if_neg (by omega)]
    rfl

theorem append_eq_ok_iff {f : Framing} {payload dst dst' : Bytes} :
    f.append payload dst = .ok dst' ↔ payload.length ≤ f.maxPayload ∧
      dst' = dst ++ (LengthPrefix.encode payload.length ++ payload) := by
  rw [append_eq]
  split
  · rename_i large
    exact ⟨nofun, fun h => absurd h.1 (Nat.not_le.mpr large)⟩
  · rename_i small
    exact ⟨fun h => ⟨Nat.not_lt.mp small, (Except.ok.inj h).symm⟩, fun h => congrArg _ h.2.symm⟩

theorem append_frame {f : Framing} {payload dst dst' : Bytes}
    (h : f.append payload dst = .ok dst') :
    ∃ frame, dst' = dst ++ frame ∧ Frame f.maxPayload payload frame := by
  obtain ⟨bound, rfl⟩ := append_eq_ok_iff.mp h
  have most := f.le_maxLength
  refine ⟨_, rfl, .mk (LengthPrefix.encode_prefix ?_) bound⟩
  rw [LengthPrefix.maxLength] at most
  omega

end Framing

end HubPack
