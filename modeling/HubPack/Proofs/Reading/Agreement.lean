import HubPack.Proofs.Reading.Message
import HubPack.Proofs.Writing.Layout

namespace HubPack
open Wire

variable {limit : Nat} {bs rest : Bytes}

section Forms

variable {e : Bytes}

theorem encodes_nil_iff : Encodes .nil e ↔ Nil e := ⟨fun | .nil form => form, .nil⟩

theorem encodes_bool_iff {b : Bool} : Encodes (.bool b) e ↔ Flag b e :=
  ⟨fun | .bool form => form, .bool⟩

theorem encodes_int_iff {i : Int64} : Encodes (.int i) e ↔ Integer i.toInt e :=
  ⟨fun | .int form => form, .int⟩

theorem encodes_uint_iff {u : UInt64} :
    Encodes (.uint u) e ↔ 2 ^ 63 ≤ u.toNat ∧ Integer u.toNat e :=
  ⟨fun | .uint large form => ⟨large, form⟩, fun ⟨large, form⟩ => .uint large form⟩

theorem encodes_string_iff {s : String} : Encodes (.string s) e ↔ Text s e :=
  ⟨fun | .string form => form, .string⟩

theorem encodes_bytes_iff {bs : Bytes} : Encodes (.bytes bs) e ↔ Raw bs e :=
  ⟨fun | .bytes form => form, .bytes⟩

theorem encodes_ofText_iff {s : Option String} : Encodes (.ofText s) e ↔ OrNil Text s e := by
  cases s with
  | none => exact encodes_nil_iff.trans ⟨.none, fun | .none form => form⟩
  | some s => exact encodes_string_iff.trans ⟨.some, fun | .some form => form⟩

end Forms

theorem Reads.ok_iff {α : Type} {r : Reader α} {P : α → Bytes → Prop} (h : Reads r P) {a : α} :
    r bs = .ok a rest ↔ ∃ e, P a e ∧ bs = e ++ rest := by
  constructor
  · exact h.sound
  · rintro ⟨e, form, rfl⟩
    exact h.complete form rest

theorem readValue_scalar_iff {v : Value} (scalar : v.depth = 0) :
    readValue limit bs = .ok v rest ↔ ∃ e, Encodes v e ∧ bs = e ++ rest := by
  have shallow : v.depth ≤ limit := by omega
  simp only [(reads_value limit).ok_iff, Within, shallow, and_true]

theorem Reads.agrees {α : Type} {r : Reader α} {P : α → Bytes → Prop} (h : Reads r P)
    {f : α → Value} (forms : ∀ a e, Encodes (f a) e ↔ P a e) {a : α} (scalar : (f a).depth = 0) :
    r bs = .ok a rest ↔ readValue limit bs = .ok (f a) rest := by
  simp only [readValue_scalar_iff scalar, h.ok_iff, forms]

section Range

theorem readMarker_error {e : WireError} (h : readMarker bs = .error e rest) :
    e = .insufficientData := by
  cases bs with
  | nil =>
    cases h
    rfl
  | cons b bs => cases h

theorem readUnsigned_error {width : Nat} {e : WireError}
    (h : readUnsigned width bs = .error e rest) : e = .insufficientData := by
  rw [readUnsigned_eq] at h
  split at h <;> cases h
  rfl

theorem readInteger_error {e : WireError} (h : readInteger bs = .error e rest) :
    e = .insufficientData ∨ ∃ m, e = .malformedValue (.unexpected .integer m) := by
  rw [readInteger] at h
  cases marker : readMarker bs with
  | error f mid =>
    rw [bind_of_error marker] at h
    cases h
    exact .inl (readMarker_error marker)
  | ok m mid =>
    have number {width : Nat} {k : Nat → Int}
        (h : (readUnsigned width >>= fun n => pure (k n)) mid = .error e rest) :
        e = .insufficientData := by
      cases read : readUnsigned width mid with
      | error f left =>
        rw [bind_of_error read] at h
        cases h
        exact readUnsigned_error read
      | ok n left =>
        rw [bind_of_ok read] at h
        cases h
    rw [bind_of_ok marker] at h
    cases form : m.form with
    | integer i =>
      rw [form] at h
      cases h
    | unsigned width =>
      rw [form] at h
      exact .inl (number h)
    | signed width =>
      rw [form] at h
      exact .inl (number h)
    | _ =>
      rw [form] at h
      cases h
      exact .inr ⟨m, rfl⟩

theorem readInt_integerRange_iff :
    readInt bs = .error (.malformedValue .integerRange) rest ↔
      ∃ i, readInteger bs = .ok i rest ∧ 2 ^ 63 ≤ i := by
  rw [readInt]
  cases read : readInteger bs with
  | error e mid =>
    rw [bind_of_error read]
    constructor
    · intro failed
      cases failed
      rcases readInteger_error read with short | ⟨m, found⟩
      · cases short
      · cases found
    · rintro ⟨i, impossible, -⟩
      cases impossible
  | ok i mid =>
    rw [bind_of_ok read]
    split
    · rename_i small
      constructor
      · intro impossible
        cases impossible
      · rintro ⟨j, same, large⟩
        cases same
        omega
    · rename_i large
      constructor
      · intro failed
        cases failed
        exact ⟨i, rfl, Int.not_lt.mp large⟩
      · rintro ⟨j, same, -⟩
        cases same
        rfl

theorem readValue_uint_iff {u : UInt64} :
    readValue limit bs = .ok (.uint u) rest ↔
      2 ^ 63 ≤ u.toNat ∧ readInteger bs = .ok u.toNat rest := by
  rw [readValue_scalar_iff (v := .uint u) rfl, reads_integer.ok_iff]
  simp only [encodes_uint_iff, and_assoc, exists_and_left]

theorem readInt_integerRange_iff_uint :
    readInt bs = .error (.malformedValue .integerRange) rest ↔
      ∃ u, readValue limit bs = .ok (.uint u) rest := by
  simp only [readInt_integerRange_iff, readValue_uint_iff]
  constructor
  · rintro ⟨i, read, large⟩
    obtain ⟨e, form, -⟩ := reads_integer.sound read
    have back := toNat_ofNat_integer form (by omega)
    exact ⟨.ofNat i.toNat, by omega, by rwa [back]⟩
  · rintro ⟨u, large, read⟩
    exact ⟨u.toNat, read, by omega⟩

end Range

section Sign

def Form.IsInteger : Form → Prop
  | .integer _ | .unsigned _ | .signed _ => True
  | _ => False

def readUInt : Reader UInt64 := do
  let i ← readInteger
  if 0 ≤ i then pure (.ofNat i.toNat) else malformed .integerRange

/-- An unsigned integer as a value: a signed one as long as it can be, up to `2 ^ 63 - 1`. -/
def Value.ofUInt64 (u : UInt64) : Value :=
  if u.toNat < 2 ^ 63 then .int (.ofInt u.toNat) else .uint u

theorem Value.ofUInt64_eq (u : UInt64) : Value.ofUInt64 u = .ofInteger u.toNat := by
  rw [ofUInt64, ofInteger]
  split
  · rw [if_pos (by omega)]
  · rw [if_neg (by omega), Int.toNat_natCast, UInt64.ofNat_toNat]

theorem map_readInt (small : ∀ i rest, readInteger bs = .ok i rest → i < 2 ^ 63) :
    (Value.int <$> readInt) bs = (Value.ofInteger <$> readInteger) bs := by
  cases read : readInteger bs with
  | error e rest =>
    have failed : readInt bs = .error e rest := by rw [readInt, bind_of_error read]
    rw [map_of_error failed, map_of_error read]
  | ok i rest =>
    have fits : i < 0x8000000000000000 := small i rest read
    have known : readInt bs = .ok (.ofInt i) rest := by
      rw [readInt, bind_of_ok read, if_pos fits]
      rfl
    rw [map_of_ok known, map_of_ok read, Value.ofInteger, if_pos fits]

theorem map_readUInt (nonneg : ∀ i rest, readInteger bs = .ok i rest → 0 ≤ i) :
    (Value.ofUInt64 <$> readUInt) bs = (Value.ofInteger <$> readInteger) bs := by
  cases read : readInteger bs with
  | error e rest =>
    have failed : readUInt bs = .error e rest := by rw [readUInt, bind_of_error read]
    rw [map_of_error failed, map_of_error read]
  | ok i rest =>
    have known : readUInt bs = .ok (.ofNat i.toNat) rest := by
      rw [readUInt, bind_of_ok read, if_pos (nonneg i rest read)]
      rfl
    obtain ⟨e, form, -⟩ := reads_integer.sound read
    rw [map_of_ok known, map_of_ok read, Value.ofUInt64_eq,
      toNat_ofNat_integer form (nonneg i rest read)]

/-- Only the unsigned form of 64 bits has room for an integer that a signed one of 64 bits cannot
be. -/
theorem Form.Counts.lt_of_ne {m : Marker} {i : Int} {tail : Bytes} (h : m.form.Counts i tail)
    (other : m ≠ .uint 3) : i < 2 ^ 63 := by
  cases m with
  | fixPos n =>
    cases h
    omega
  | fixNeg n =>
    cases h
    omega
  | uint k =>
    have narrow : ∀ k : Fin 4, Marker.uint k ≠ .uint 3 → 256 ^ (1 <<< k.val) ≤ 2 ^ 63 := by decide
    have room := narrow k other
    cases h
    omega
  | int k =>
    have widest : ∀ k : Fin 4, (256 : Int) ^ (1 <<< k.val) ≤ 2 ^ 64 := by decide
    cases h with
    | signed fits =>
      obtain ⟨-, high⟩ := signedOf_bounds fits
      have double := high.trans_le (widest k)
      omega
  | float k =>
    simp only [Marker.form] at h
    split at h <;> cases h
  | _ => cases h

theorem exists_counts_of_readInteger {m : Marker} {i : Int} {tail : Bytes}
    (read : readInteger (m.toByte :: tail) = .ok i rest) : ∃ digits, m.form.Counts i digits := by
  obtain ⟨e, form, same⟩ := reads_integer.sound read
  obtain ⟨m', digits, counts, rfl⟩ := integer_iff.mp form
  obtain ⟨byte, -⟩ := List.cons.inj same
  rw [Marker.toByte_inj byte]
  exact ⟨digits, counts⟩

theorem readValueWithin_arm (limit levels : Nat) {m : Marker} (integer : m.form.IsInteger)
    (tail : Bytes) : readValueWithin limit levels (m.toByte :: tail) =
      (Value.ofInteger <$> readInteger) (m.toByte :: tail) := by
  rw [readValueWithin, bind_of_ok (peekMarker_cons m tail)]
  generalize m.form = form at integer
  cases form with
  | integer | unsigned | signed => rfl
  | _ => exact integer.elim

/-- The read of any value reads the unsigned form of 64 bits as an unsigned integer and each other
form as a signed one. So the two meet at `2 ^ 63 - 1`, the greatest signed value. -/
theorem readValueWithin_by_sign (limit levels : Nat) {m : Marker} (integer : m.form.IsInteger)
    (tail : Bytes) : readValueWithin limit levels (m.toByte :: tail) =
      if m = .uint 3 then (Value.ofUInt64 <$> readUInt) (m.toByte :: tail)
      else (Value.int <$> readInt) (m.toByte :: tail) := by
  rw [readValueWithin_arm limit levels integer]
  split
  · rename_i wide
    subst wide
    refine (map_readUInt fun i rest read => ?_).symm
    obtain ⟨digits, counts⟩ := exists_counts_of_readInteger read
    cases counts with
    | unsigned => exact Int.natCast_nonneg _
  · rename_i narrow
    refine (map_readInt fun i rest read => ?_).symm
    obtain ⟨digits, counts⟩ := exists_counts_of_readInteger read
    exact counts.lt_of_ne narrow

example : readValue 0 (0xcf :: bigEndian 8 (2 ^ 63 - 1)) = .ok (.int Int64.maxValue) [] := by cbv

example : readValue 0 (0xcf :: bigEndian 8 (2 ^ 63)) = .ok (.uint 0x8000000000000000) [] := by cbv

end Sign

/-- The reads of single kinds together accept exactly what the read of any value accepts without
members, with the same contents and the same rest. -/
theorem typed_reads_agree (limit : Nat) (bs rest : Bytes) :
    (∀ i, readInt bs = .ok i rest ↔ readValue limit bs = .ok (.int i) rest) ∧
    (readInt bs = .error (.malformedValue .integerRange) rest ↔
      ∃ u, readValue limit bs = .ok (.uint u) rest) ∧
    (∀ s, readString bs = .ok s rest ↔ readValue limit bs = .ok (.string s) rest) ∧
    (∀ body, readBytes bs = .ok body rest ↔ readValue limit bs = .ok (.bytes body) rest) ∧
    (∀ b, readBool bs = .ok b rest ↔ readValue limit bs = .ok (.bool b) rest) ∧
    (readNil bs = .ok () rest ↔ readValue limit bs = .ok .nil rest) ∧
    ∀ s, readStringOrNil bs = .ok s rest ↔ readValue limit bs = .ok (.ofText s) rest := by
  refine ⟨fun i => ?_, readInt_integerRange_iff_uint, fun s => ?_, fun body => ?_, fun b => ?_, ?_,
    fun s => ?_⟩
  · exact reads_int.agrees (fun _ _ => encodes_int_iff) rfl
  · exact reads_text.agrees (fun _ _ => encodes_string_iff) rfl
  · exact reads_raw.agrees (fun _ _ => encodes_bytes_iff) rfl
  · exact reads_bool.agrees (fun _ _ => encodes_bool_iff) rfl
  · exact reads_nil.agrees (f := fun _ => .nil) (fun _ _ => encodes_nil_iff) rfl
  · exact reads_textOrNil.agrees (fun _ _ => encodes_ofText_iff) (by cases s <;> rfl)

end HubPack
