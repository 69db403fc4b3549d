import HubPack.LengthPrefix
import HubPack.Proofs.Reading.Limit
import HubPack.Proofs.Wire.Parts
import HubPack.Proofs.Writing.Success

/-!
What is written is read back, in normal form, as long as the length of each text fits a field of 32
bits: so it is with every value that a frame can hold. Counts and extensions that are too long for
their field are refused. Texts and byte strings are not: they are written after a length that has
wrapped around, and lost.
-/
namespace HubPack
open Wire

/-- A value whose bytes fit a frame is read back before any bytes in its normal form, unless it
nests too deep for the reader, and a skip gets past it in the same cases. -/
theorem value_round_trip {v : Value} {e : Bytes} (written : (writeValue v).toExcept = .ok e)
    (short : e.length ≤ LengthPrefix.maxLength) (limit : Nat) (rest : Bytes) :
    (v.depth ≤ limit →
      readValue limit (e ++ rest) = .ok v.normalize rest ∧
      skipValue limit (e ++ rest) = .ok () rest) ∧
    (limit < v.depth → ∃ left,
      readValue limit (e ++ rest) = .error (.malformedValue (.nesting limit)) left ∧
      skipValue limit (e ++ rest) = .error (.malformedValue (.nesting limit)) left) := by
  have most : LengthPrefix.maxLength < 2 ^ 32 := by decide
  have gives : (writeValue v).Gives e :=
    ⟨Written.toExcept_eq_ok_iff.mp written, Nat.lt_of_le_of_lt short most⟩
  -- no text is longer than all that is written, so that no length has wrapped around
  have form : Encodes v.normalize e := gives.value
  constructor
  · intro shallow
    have within : Within limit v.normalize e := ⟨form, by rwa [Value.depth_normalize]⟩
    exact ⟨(reads_value limit).complete within rest, (reads_skip limit).complete ⟨_, within⟩ rest⟩
  · intro deep
    rw [← Value.depth_normalize] at deep
    obtain ⟨left, failed⟩ := readValue_deep form deep rest
    exact ⟨left, failed, bind_of_error failed⟩

theorem value_round_trip_map :
    (∀ rest, readValue 1 ([0x82, 0xc0, 5, 0xc0, 0xd4, 0xff, 7] ++ rest) =
      .ok (.map [(.nil, .int 5), (.nil, .ext (-1) [7])]) rest) ∧
    ∃ left, readValue 0 ([0x82, 0xc0, 5, 0xc0, 0xd4, 0xff, 7] ++ [9]) =
      .error (.malformedValue (.nesting 0)) left := by
  have written : (writeValue (.map [(.nil, .uint 5), (.nil, .ext (-1) [7])])).toExcept =
      .ok [0x82, 0xc0, 5, 0xc0, 0xd4, 0xff, 7] := by
    cbv
  constructor
  · intro rest
    exact ((value_round_trip written (by decide) 1 rest).1 (by decide)).1
  · obtain ⟨left, failed, -⟩ := (value_round_trip written (by decide) 0 [9]).2 (by decide)
    exact ⟨left, failed⟩

namespace Written

variable {α : Type} {w : Written} {r : Reader α} {P : α → Bytes → Prop} {a : α}

def ReadsBack (w : Written) (r : Reader α) (a : α) : Prop :=
  w.error = none ∧ ∀ rest, r (w.bytes ++ rest) = .ok a rest

def Refuses (w : Written) : Prop := ∃ cause, w.error = some (.serialization cause)

theorem readsBack_iff (hr : Reads r P) : w.ReadsBack r a ↔ w.error = none ∧ P a w.bytes := by
  constructor
  · rintro ⟨written, read⟩
    exact ⟨written, hr.eq_ok_iff.mp (read [])⟩
  · rintro ⟨written, form⟩
    exact ⟨written, fun rest => hr.complete form rest⟩

theorem OnlyRefuses.refuses_iff (h : w.OnlyRefuses) : w.Refuses ↔ w.error ≠ none := by
  constructor
  · rintro ⟨cause, refused⟩ written
    rw [written] at refused
    cases refused
  · intro failed
    obtain ⟨e, failed⟩ := Option.ne_none_iff_exists'.mp failed
    obtain ⟨cause, rfl⟩ := h e failed
    exact ⟨cause, failed⟩

theorem eq_mk (h : w.error = none) : w = ⟨w.bytes, none⟩ := by
  obtain ⟨bytes, error⟩ := w
  cases h
  rfl

/-- What has a length is read back if a field of 32 bits holds the length. If none does, it is
refused and nothing is appended. -/
structure KeepsLength (w : Written) (r : Reader α) (a : α) (length : Nat) : Prop where
  readsBack : w.ReadsBack r a ↔ length < 2 ^ 32
  refuses : w.Refuses ↔ 2 ^ 32 ≤ length
  whole : w.error ≠ none → w.bytes = []

theorem KeepsLength.of_checked {length : Nat} (hr : Reads r P) (only : w.OnlyRefuses)
    (checked : w.error = none ↔ length < 2 ^ 32) (form : w.error = none → P a w.bytes)
    (whole : w.error ≠ none → w.bytes = []) : w.KeepsLength r a length where
  readsBack := by
    rw [readsBack_iff hr, ← checked]
    exact ⟨fun h => h.1, fun h => ⟨h, form h⟩⟩
  refuses := by
    rw [only.refuses_iff, ne_eq, checked, Nat.not_lt]
  whole := whole

end Written

open Written

theorem counted_whole {what : Counted} {marker : Nat → Marker} {n : Nat}
    (h : (writeCounted what marker n).error ≠ none) : (writeCounted what marker n).bytes = [] := by
  rw [writeCounted] at h ⊢
  split at h
  · exact absurd rfl h
  · rename_i large
    rw [if_neg large]
    rfl

theorem arrayHeader_keepsLength (n : Nat) : (writeArrayHeader n).KeepsLength readArrayHeader n n :=
  .of_checked reads_arrayHeader (onlyRefuses_counted _ _ n) writeArrayHeader_error_eq_none_iff
    (fun h => array_length_written (eq_mk h)) counted_whole

theorem mapHeader_keepsLength (n : Nat) : (writeMapHeader n).KeepsLength readMapHeader n n :=
  .of_checked reads_mapHeader (onlyRefuses_counted _ _ n) writeMapHeader_error_eq_none_iff
    (fun h => map_length_written (eq_mk h)) counted_whole

theorem hasShortTexts_ext (tag : Int8) (data : Bytes) : (Value.ext tag data).HasShortTexts := by
  rintro x ⟨⟩
  exact (by decide : 0 < 2 ^ 32)

theorem ext_keepsLength (tag : Int8) (data : Bytes) (limit : Nat) :
    (writeExt tag data).KeepsLength (readValue limit) (.ext tag data) data.length := by
  have checked : (writeExt tag data).error = none ↔ data.length < 2 ^ 32 :=
    (writeValue_error_eq_none_iff (.ext tag data)).trans Value.isCounted_ext_iff
  refine .of_checked (reads_value limit) (onlyRefuses_value (.ext tag data)) checked ?_ ?_
  · intro written
    have form := value_written (.ext tag data) (hasShortTexts_ext tag data) (eq_mk written)
    exact ⟨form, Nat.zero_le limit⟩
  · intro failed
    rw [writeExt, append_eq] at failed ⊢
    cases refused : (writeCounted .ext .forExt data.length).error with
    | none =>
      rw [refused] at failed
      exact absurd rfl failed
    | some e => exact counted_whole (by rw [refused]; exact Option.some_ne_none e)

theorem string_readsBack_iff (s : String) :
    (writeString s).ReadsBack readString s ↔ (Utf8.encode s).length < 2 ^ 32 := by
  rw [readsBack_iff reads_text]
  constructor
  · rintro ⟨-, text⟩
    exact text.length_lt
  · intro short
    exact ⟨rfl, text_written short rfl⟩

theorem bytes_readsBack_iff (bs : Bytes) :
    (writeBytes bs).ReadsBack readBytes bs ↔ bs.length < 2 ^ 32 := by
  rw [readsBack_iff reads_raw]
  constructor
  · rintro ⟨-, raw⟩
    exact raw.length_lt
  · intro short
    exact ⟨rfl, raw_written short rfl⟩

theorem value_readsBack_iff (v : Value) (limit : Nat) :
    (writeValue v).ReadsBack (readValue limit) v.normalize ↔
      v.IsCounted ∧ v.HasShortTexts ∧ v.depth ≤ limit := by
  rw [readsBack_iff (reads_value limit), writeValue_error_eq_none_iff]
  constructor
  · rintro ⟨counted, form, shallow⟩
    rw [Value.depth_normalize] at shallow
    exact ⟨counted, Value.hasShortTexts_of_normalize form.hasShortTexts, shallow⟩
  · rintro ⟨counted, short, shallow⟩
    have written := eq_mk ((writeValue_error_eq_none_iff v).mpr counted)
    exact ⟨counted, value_written v short written, by rwa [Value.depth_normalize]⟩

/-- Headers and extensions keep their lengths: what a field of 32 bits cannot count is refused, and
nothing of it is appended. Texts and byte strings are never refused, and are read back exactly if
their length has a field. A value is refused exactly if some count in it has no field, and read back
exactly if, besides, every text in it has a field for its length. -/
theorem readsBack_by_length (n limit : Nat) (s : String) (bs : Bytes) (tag : Int8) (data : Bytes)
    (v : Value) :
    (writeArrayHeader n).KeepsLength readArrayHeader n n ∧
    (writeMapHeader n).KeepsLength readMapHeader n n ∧
    (writeExt tag data).KeepsLength (readValue limit) (.ext tag data) data.length ∧
    (¬(writeString s).Refuses ∧
      ((writeString s).ReadsBack readString s ↔ (Utf8.encode s).length < 2 ^ 32)) ∧
    (¬(writeBytes bs).Refuses ∧
      ((writeBytes bs).ReadsBack readBytes bs ↔ bs.length < 2 ^ 32)) ∧
    ((writeValue v).Refuses ↔ ¬v.IsCounted) ∧
    ((writeValue v).ReadsBack (readValue limit) v.normalize ↔
      v.IsCounted ∧ v.HasShortTexts ∧ v.depth ≤ limit) := by
  have refuses : (writeValue v).Refuses ↔ ¬v.IsCounted := by
    rw [(onlyRefuses_value v).refuses_iff, ne_eq, writeValue_error_eq_none_iff]
  exact ⟨arrayHeader_keepsLength n, mapHeader_keepsLength n, ext_keepsLength tag data limit,
    ⟨nofun, string_readsBack_iff s⟩, ⟨nofun, bytes_readsBack_iff bs⟩, refuses,
    value_readsBack_iff v limit⟩

theorem encode_replicate (n : Nat) :
    Utf8.encode (.ofList (List.replicate n 'a')) = List.replicate n 97 := by
  rw [Utf8.encode, String.toList_ofList]
  induction n with
  | zero => rfl
  | succ n ih =>
    rw [List.replicate_succ, List.flatMap_cons, ih, List.replicate_succ]
    rfl

/-- A text whose length is a multiple of what its field can count is written as an empty one. -/
theorem writeString_wrapped {s : String} (wraps : (Utf8.encode s).length % 0x100000000 = 0) :
    writeString s = ⟨0xa0 :: Utf8.encode s, none⟩ := by
  simp only [writeString, wraps]
  rfl

/-- Of a text of `2 ^ 32` bytes none is read back, though its write succeeds. -/
theorem long_text_lost :
    writeString (.ofList (List.replicate (2 ^ 32) 'a')) =
      ⟨0xa0 :: List.replicate (2 ^ 32) 97, none⟩ ∧
    readString (0xa0 :: List.replicate (2 ^ 32) 97) = .ok "" (List.replicate (2 ^ 32) 97) ∧
    ¬((writeString (.ofList (List.replicate (2 ^ 32) 'a'))).Refuses ∨
      (writeString (.ofList (List.replicate (2 ^ 32) 'a'))).ReadsBack readString
        (.ofList (List.replicate (2 ^ 32) 'a'))) := by
  have length (n : Nat) : (Utf8.encode (.ofList (List.replicate n 'a'))).length = n := by
    rw [encode_replicate, List.length_replicate]
  refine ⟨?_, ?_, ?_⟩
  · have wraps := congrArg (· % 0x100000000) (length (2 ^ 32))
    rw [writeString_wrapped wraps, encode_replicate]
  · exact reads_text.complete (a := "") (e := [0xa0]) (.mk (.short (by decide))) _
  · rintro (⟨cause, refused⟩ | read)
    · cases refused
    · rw [string_readsBack_iff, length] at read
      exact Nat.lt_irrefl _ read

end HubPack
