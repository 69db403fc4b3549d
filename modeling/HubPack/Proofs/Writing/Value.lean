import HubPack.Writer
import HubPack.Proofs.Reading.Value
import HubPack.Proofs.Value.Parts

namespace HubPack
open Wire

namespace Written

theorem append_eq (a b : Written) : a ++ b = match a.error with
    | none => ⟨a.bytes ++ b.bytes, b.error⟩
    | some _ => a := rfl

theorem append_eq_iff {a b : Written} {bs : Bytes} : a ++ b = ⟨bs, none⟩ ↔
    ∃ x y, a = ⟨x, none⟩ ∧ b = ⟨y, none⟩ ∧ bs = x ++ y := by
  obtain ⟨x, e⟩ := a
  obtain ⟨y, f⟩ := b
  rw [append_eq]
  cases e with
  | none => simp [eq_comm, and_comm]
  | some e => simp

/-- A write that succeeds, with fewer bytes than a length of 32 bits can count. -/
def Gives (w : Written) (bs : Bytes) : Prop := w = ⟨bs, none⟩ ∧ bs.length < 2 ^ 32

theorem Gives.parts {a b : Written} {bs : Bytes} (h : (a ++ b).Gives bs) :
    ∃ x y, a.Gives x ∧ b.Gives y ∧ bs = x ++ y := by
  obtain ⟨written, short⟩ := h
  obtain ⟨x, y, first, second, rfl⟩ := append_eq_iff.mp written
  rw [List.length_append] at short
  exact ⟨x, y, ⟨first, by omega⟩, ⟨second, by omega⟩, rfl⟩

theorem Gives.members {parts : List Written} {bs : Bytes} (h : (join parts).Gives bs) :
    ∃ pieces, List.Forall₂ Gives parts pieces ∧ bs = pieces.flatten := by
  induction parts generalizing bs with
  | nil =>
    obtain ⟨written, -⟩ := h
    cases written
    exact ⟨[], .nil, rfl⟩
  | cons w parts ih =>
    obtain ⟨x, y, first, rest, rfl⟩ := Gives.parts h
    obtain ⟨pieces, each, rfl⟩ := ih rest
    exact ⟨x :: pieces, .cons first each, rfl⟩

theorem toExcept_eq_ok_iff {w : Written} {bs : Bytes} : w.toExcept = .ok bs ↔ w = ⟨bs, none⟩ := by
  obtain ⟨x, e⟩ := w
  cases e with
  | none => simp [toExcept]
  | some e => simp [toExcept]

end Written

def Extent.width : Extent → Nat
  | .here _ => 0
  | .next w => w

theorem Announces.header {form : Extent → Form} {forms : LengthForms} (a : Announces form forms)
    (width : ∀ x, (form x).width = x.width) {m : Marker} {x : Extent} {n : Nat}
    (hm : m.form = form x) (hx : x.Measures n (bigEndian x.width n)) :
    Length forms n (m.header n) := by
  rw [Marker.header, hm, width]
  exact a.length_iff.mpr ⟨m, x, _, hm, hx, rfl⟩

theorem lengthClass_bound {n : Nat} (h : n < 2 ^ 32) :
    n < 256 ^ (1 <<< (Marker.lengthClass n).val) := by
  rw [Marker.lengthClass]
  split
  · assumption
  · split <;> assumption

theorem string_header {n : Nat} (h : n < 2 ^ 32) :
    Length .string n ((Marker.forString n).header n) := by
  rw [Marker.forString]
  split
  · exact announces_string.header (fun x => by cases x <;> rfl) rfl (.here n)
  · exact announces_string.header (fun x => by cases x <;> rfl) rfl (.next (lengthClass_bound h))

theorem bytes_header {n : Nat} (h : n < 2 ^ 32) :
    Length .bytes n ((Marker.forBytes n).header n) :=
  announces_bytes.header (fun x => by cases x <;> rfl) rfl (.next (lengthClass_bound h))

theorem array_header {n : Nat} (h : n < 2 ^ 32) :
    Length .array n ((Marker.forArray n).header n) := by
  rw [Marker.forArray]
  split
  · exact announces_array.header (fun x => by cases x <;> rfl) rfl (.here n)
  · split
    · rename_i small
      exact announces_array.header (fun x => by cases x <;> rfl) rfl (.next small)
    · exact announces_array.header (fun x => by cases x <;> rfl) rfl (.next h)

theorem map_header {n : Nat} (h : n < 2 ^ 32) :
    Length .map n ((Marker.forMap n).header n) := by
  rw [Marker.forMap]
  split
  · exact announces_map.header (fun x => by cases x <;> rfl) rfl (.here n)
  · split
    · rename_i small
      exact announces_map.header (fun x => by cases x <;> rfl) rfl (.next small)
    · exact announces_map.header (fun x => by cases x <;> rfl) rfl (.next h)

theorem ext_header {n : Nat} (h : n < 2 ^ 32) :
    Length .ext n ((Marker.forExt n).header n) := by
  have short (k : Fin 5) (same : n = 1 <<< k.val) : Length .ext n ((Marker.fixExt k).header n) := by
    subst same
    exact announces_ext.header (fun x => by cases x <;> rfl) rfl (.here _)
  rw [Marker.forExt]
  split
  · exact short 0 ‹_›
  split
  · exact short 1 ‹_›
  split
  · exact short 2 ‹_›
  split
  · exact short 3 ‹_›
  split
  · exact short 4 ‹_›
  · exact announces_ext.header (fun x => by cases x <;> rfl) rfl (.next (lengthClass_bound h))

theorem patternOf_natCast {w n : Nat} (h : n < 256 ^ w) : patternOf w n = n := by
  have cast : ((256 ^ w : Nat) : Int) = 256 ^ w := Int.natCast_pow 256 w
  rw [patternOf, capacity_eq, Int.emod_eq_of_lt (by omega) (by omega)]
  rfl

theorem unsigned_written {n : Nat} (h : n < 2 ^ 64) : Integer n
    ((Marker.forUnsigned n).header (patternOf (Marker.forUnsigned n).form.width n)) := by
  have wide (k : Fin 4) (fits : n < 256 ^ (1 <<< k.val)) :
      Integer n ((Marker.uint k).header (patternOf (Marker.uint k).form.width n)) := by
    have pattern : patternOf (Marker.uint k).form.width n = n := patternOf_natCast fits
    rw [pattern]
    exact integer_iff.mpr ⟨.uint k, _, .unsigned fits, rfl⟩
  rw [Marker.forUnsigned]
  split
  · rename_i small
    exact .positive small
  · split
    · rename_i small
      exact wide _ (lengthClass_bound small)
    · exact wide 3 h

theorem negative_written {i : Int} (negative : i < 0) (low : -2 ^ 63 ≤ i) : Integer i
    ((Marker.forNegative i).header (patternOf (Marker.forNegative i).form.width i)) := by
  have wide (k : Fin 4) (bound : Int) (size : (256 : Int) ^ (1 <<< k.val) = bound)
      (fits : -bound ≤ 2 * i) :
      Integer i ((Marker.int k).header (patternOf (Marker.int k).form.width i)) := by
    subst size
    have positive : (0 : Int) < 256 ^ (1 <<< k.val) := Int.pow_pos (by decide)
    exact integer_iff.mpr ⟨.int k, _, signed_counts fits (by omega), rfl⟩
  rw [Marker.forNegative]
  split
  · rename_i small
    have value : ((Fin.ofNat 32 (i + 32).toNat).val : Int) - 32 = i := by
      rw [Fin.val_ofNat]
      omega
    have counts : (Marker.fixNeg (Fin.ofNat 32 (i + 32).toNat)).form.Counts i [] := by
      rw [Marker.form, value]
      exact .integer i
    exact integer_iff.mpr ⟨_, [], counts, rfl⟩
  split
  · exact wide 0 (2 ^ 8) (by decide) (by omega)
  split
  · exact wide 1 (2 ^ 16) (by decide) (by omega)
  split
  · exact wide 2 (2 ^ 32) (by decide) (by omega)
  · exact wide 3 (2 ^ 64) (by decide) (by omega)

theorem integer_written {i : Int} (low : -2 ^ 63 ≤ i) (high : i < 2 ^ 64) {bs : Bytes}
    (h : writeInteger i = ⟨bs, none⟩) : Integer i bs := by
  rw [writeInteger, Written.mk.injEq] at h
  obtain ⟨rfl, -⟩ := h
  rw [Marker.forInteger]
  split
  · rename_i nonneg
    obtain ⟨n, rfl⟩ := Int.eq_ofNat_of_zero_le nonneg
    exact unsigned_written (by omega)
  · exact negative_written (by omega) low

theorem nil_written {bs : Bytes} (h : writeNil = ⟨bs, none⟩) : Nil bs := by
  cases h
  exact .mk

theorem flag_written {b : Bool} {bs : Bytes} (h : writeBool b = ⟨bs, none⟩) : Flag b bs := by
  cases h
  cases b with
  | false => exact .false
  | true => exact .true

theorem text_written {s : String} (short : (Utf8.encode s).length < 2 ^ 32) {bs : Bytes}
    (h : writeString s = ⟨bs, none⟩) : Text s bs := by
  rw [writeString, Written.mk.injEq] at h
  obtain ⟨rfl, -⟩ := h
  rw [Nat.mod_eq_of_lt (by omega)]
  exact .mk (string_header short)

theorem raw_written {body : Bytes} (short : body.length < 2 ^ 32) {bs : Bytes}
    (h : writeBytes body = ⟨bs, none⟩) : Raw body bs := by
  rw [writeBytes, Written.mk.injEq] at h
  obtain ⟨rfl, -⟩ := h
  rw [Nat.mod_eq_of_lt (by omega)]
  exact .mk (bytes_header short)

theorem counted_written {what : Counted} {marker : Nat → Marker} {n : Nat} {bs : Bytes}
    (h : writeCounted what marker n = ⟨bs, none⟩) : n < 2 ^ 32 ∧ bs = (marker n).header n := by
  rw [writeCounted] at h
  split at h
  · rename_i small
    cases h
    exact ⟨small, rfl⟩
  · cases h

theorem array_length_written {n : Nat} {bs : Bytes} (h : writeArrayHeader n = ⟨bs, none⟩) :
    Length .array n bs := by
  obtain ⟨small, rfl⟩ := counted_written h
  exact array_header small

theorem map_length_written {n : Nat} {bs : Bytes} (h : writeMapHeader n = ⟨bs, none⟩) :
    Length .map n bs := by
  obtain ⟨small, rfl⟩ := counted_written h
  exact map_header small

mutual

theorem value_written (v : Value) (short : v.HasShortTexts) {bs : Bytes}
    (h : writeValue v = ⟨bs, none⟩) : Encodes v.normalize bs := by
  cases v with
  | nil => exact .nil (nil_written h)
  | bool b => exact .bool (flag_written h)
  | int i => exact .int (integer_written i.le_toInt (Int.lt_trans i.toInt_lt (by decide)) h)
  | uint u =>
    have bound := u.toNat_lt
    have written : Integer u.toNat bs := integer_written (by omega) (by omega) h
    rw [Value.normalize]
    split
    · rename_i small
      exact .int (by rwa [Int64.toInt_ofNat_of_lt small])
    · rename_i large
      exact .uint (by omega) written
  | float f =>
    cases h
    exact .double f
  | string s => exact .string (text_written (short _ (.self _)) h)
  | bytes body => exact .bytes (raw_written (short _ (.self _)) h)
  | array items =>
    obtain ⟨head, body, first, rest, rfl⟩ := Written.append_eq_iff.mp h
    rw [Value.normalize]
    refine .array ?_ (items_written items (Value.hasShortTexts_array_iff.mp short) rest)
    rw [Value.length_normalizeItems]
    exact array_length_written first
  | map entries =>
    obtain ⟨head, body, first, rest, rfl⟩ := Written.append_eq_iff.mp h
    rw [Value.normalize]
    refine .map ?_ (entries_written entries (Value.hasShortTexts_map_iff.mp short) rest)
    rw [Value.length_normalizeEntries]
    exact map_length_written first
  | ext tag data =>
    obtain ⟨head, body, first, rest, rfl⟩ := Written.append_eq_iff.mp h
    obtain ⟨small, rfl⟩ := counted_written first
    cases rest
    exact .ext (ext_header small)

theorem items_written (items : List Value) (short : ∀ v ∈ items, v.HasShortTexts) {bs : Bytes}
    (h : writeItems items = ⟨bs, none⟩) : Sequence Encodes (Value.normalizeItems items) bs := by
  cases items with
  | nil =>
    cases h
    exact .nil
  | cons v vs =>
    obtain ⟨e, es, first, rest, rfl⟩ := Written.append_eq_iff.mp h
    obtain ⟨here, there⟩ := List.forall_mem_cons.mp short
    exact .cons (value_written v here first) (items_written vs there rest)

theorem entries_written (entries : List (Value × Value))
    (short : ∀ entry ∈ entries, entry.1.HasShortTexts ∧ entry.2.HasShortTexts) {bs : Bytes}
    (h : writeEntries entries = ⟨bs, none⟩) :
    Sequence (Pair Encodes Encodes) (Value.normalizeEntries entries) bs := by
  cases entries with
  | nil =>
    cases h
    exact .nil
  | cons entry rest =>
    obtain ⟨k, v⟩ := entry
    obtain ⟨e, es, first, tail, rfl⟩ := Written.append_eq_iff.mp h
    obtain ⟨ek, ev, key, value, rfl⟩ := Written.append_eq_iff.mp first
    obtain ⟨⟨shortKey, shortValue⟩, there⟩ := List.forall_mem_cons.mp short
    exact .cons (.mk (value_written k shortKey key) (value_written v shortValue value))
      (entries_written rest there tail)

end

theorem writeItems_eq_join (items : List Value) :
    writeItems items = .join (items.map writeValue) := by
  induction items with
  | nil => rfl
  | cons v vs ih =>
    rw [writeItems, ih]
    rfl

theorem writeEntries_eq_join (entries : List (Value × Value)) : writeEntries entries =
    .join (entries.map fun entry => writeValue entry.1 ++ writeValue entry.2) := by
  induction entries with
  | nil => rfl
  | cons entry rest ih =>
    rw [writeEntries, ih]
    rfl

namespace Written.Gives

theorem member {α : Type} {f : α → Written} {as : List α} {bs : Bytes}
    (h : (join (as.map f)).Gives bs) {a : α} (mem : a ∈ as) : ∃ e, (f a).Gives e := by
  induction as generalizing bs with
  | nil => cases mem
  | cons b as ih =>
    obtain ⟨x, y, first, rest, rfl⟩ := Gives.parts h
    cases mem with
    | head => exact ⟨x, first⟩
    | tail _ mem => exact ih rest mem

theorem part {v x : Value} {bs : Bytes} (h : (writeValue v).Gives bs) (part : v.HasPart x) :
    ∃ e, (writeValue x).Gives e := by
  induction part generalizing bs with
  | self v => exact ⟨bs, h⟩
  | item mem _ ih =>
    obtain ⟨_, _, _, rest, rfl⟩ := Gives.parts h
    rw [writeItems_eq_join] at rest
    obtain ⟨_, item⟩ := rest.member mem
    exact ih item
  | key mem _ ih =>
    obtain ⟨_, _, _, rest, rfl⟩ := Gives.parts h
    rw [writeEntries_eq_join] at rest
    obtain ⟨_, entry⟩ := rest.member mem
    obtain ⟨_, _, key, _, rfl⟩ := Gives.parts entry
    exact ih key
  | value mem _ ih =>
    obtain ⟨_, _, _, rest, rfl⟩ := Gives.parts h
    rw [writeEntries_eq_join] at rest
    obtain ⟨_, entry⟩ := rest.member mem
    obtain ⟨_, _, _, value, rfl⟩ := Gives.parts entry
    exact ih value

theorem short_text {s : String} {bs : Bytes} (h : (writeString s).Gives bs) :
    (Utf8.encode s).length < 2 ^ 32 := by
  obtain ⟨written, short⟩ := h
  rw [writeString, Written.mk.injEq] at written
  obtain ⟨rfl, -⟩ := written
  rw [List.length_append] at short
  omega

theorem short_raw {body bs : Bytes} (h : (writeBytes body).Gives bs) : body.length < 2 ^ 32 := by
  obtain ⟨written, short⟩ := h
  rw [writeBytes, Written.mk.injEq] at written
  obtain ⟨rfl, -⟩ := written
  rw [List.length_append] at short
  omega

theorem hasShortTexts {v : Value} {bs : Bytes} (h : (writeValue v).Gives bs) :
    v.HasShortTexts := by
  intro x part
  obtain ⟨e, written⟩ := h.part part
  cases x with
  | string s => exact written.short_text
  | bytes body => exact written.short_raw
  | _ => exact (by decide : 0 < 2 ^ 32)

theorem text {s : String} {bs : Bytes} (h : (writeString s).Gives bs) : Text s bs :=
  text_written h.short_text h.1

theorem value {v : Value} {bs : Bytes} (h : (writeValue v).Gives bs) : Encodes v.normalize bs :=
  value_written v h.hasShortTexts h.1

theorem items {items : List Value} {bs : Bytes} (h : (writeItems items).Gives bs) :
    Sequence Encodes (Value.normalizeItems items) bs := by
  apply items_written items _ h.1
  intro v mem
  rw [writeItems_eq_join] at h
  obtain ⟨e, written⟩ := h.member mem
  exact written.hasShortTexts

end Written.Gives

end HubPack
