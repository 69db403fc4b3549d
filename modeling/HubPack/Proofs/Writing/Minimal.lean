import HubPack.Proofs.Writing.ReadBack

namespace HubPack
open Wire

/-- A form is no shorter than what is written, and `P` holds of it if it is no longer. -/
def NoShorter (P : Bytes → Prop) (written form : Bytes) : Prop :=
  written.length ≤ form.length ∧ (written.length = form.length → P form)

namespace NoShorter

variable {P Q R : Bytes → Prop} {w e w' e' : Bytes}

theorem self (h : P e) : NoShorter P e e := ⟨Nat.le_refl _, fun _ => h⟩

theorem imp (h : NoShorter P w e) (imp : P e → Q e) : NoShorter Q w e :=
  ⟨h.1, fun same => imp (h.2 same)⟩

theorem append (h : NoShorter P w e) (h' : NoShorter Q w' e') (join : P e → Q e' → R (e ++ e')) :
    NoShorter R (w ++ w') (e ++ e') := by
  obtain ⟨le, tight⟩ := h
  obtain ⟨le', tight'⟩ := h'
  rw [NoShorter, List.length_append, List.length_append]
  exact ⟨by omega, fun same => join (tight (by omega)) (tight' (by omega))⟩

theorem before (h : NoShorter (· = w) w e) (data : Bytes) :
    NoShorter (· = w ++ data) (w ++ data) (e ++ data) :=
  h.append (.self rfl) (congrArg₂ (· ++ ·))

end NoShorter

theorem length_header (m : Marker) (n : Nat) : (m.header n).length = m.form.width + 1 := by
  rw [Marker.header, List.length_cons, length_bigEndian]

theorem lt_of_pow_lt_pow {j k n : Nat} (low : 256 ^ (1 <<< j) ≤ n) (high : n < 256 ^ (1 <<< k)) :
    j < k := by
  by_contra reversed
  rw [Nat.one_shiftLeft] at low high
  have widths : 2 ^ k ≤ 2 ^ j := Nat.pow_le_pow_right (by decide) (Nat.le_of_not_lt reversed)
  have sizes : 256 ^ 2 ^ k ≤ 256 ^ 2 ^ j := Nat.pow_le_pow_right (by decide) widths
  omega

theorem lengthClass_le {n k : Nat} (fits : n < 256 ^ (1 <<< k)) :
    (Marker.lengthClass n).val ≤ k := by
  rw [Marker.lengthClass]
  split
  · exact Nat.zero_le k
  · rename_i one
    split
    · exact lt_of_pow_lt_pow (Nat.le_of_not_lt one) fits
    · rename_i two
      exact lt_of_pow_lt_pow (Nat.le_of_not_lt two) fits

section Lengths

structure Wire.LengthForms.Distinct (forms : LengthForms) : Prop where
  short : ∀ p ∈ forms.short, ∀ q ∈ forms.short, p.1 = q.1 → p.2 = q.2
  wide : ∀ p ∈ forms.wide, ∀ q ∈ forms.wide, p.2 = q.2 → p.1 = q.1
  positive : ∀ p ∈ forms.wide, 0 < p.2

theorem Wire.Length.eq_of_length {forms : LengthForms} (distinct : forms.Distinct) {n : Nat}
    {e f : Bytes} (h : Length forms n e) (h' : Length forms n f) (same : e.length = f.length) :
    e = f := by
  cases h with
  | short mem =>
    cases h' with
    | short mem' =>
      exact congrArg (fun first => [UInt8.ofNat first]) (distinct.short _ mem _ mem' rfl)
    | wide mem' =>
      have positive := distinct.positive _ mem'
      rw [List.length_singleton, List.length_cons, length_bigEndian] at same
      omega
  | @wide first width mem =>
    cases h' with
    | short mem' =>
      have positive := distinct.positive _ mem
      rw [List.length_singleton, List.length_cons, length_bigEndian] at same
      omega
    | @wide first' width' mem' =>
      have widths : width = width' := by
        rw [List.length_cons, List.length_cons, length_bigEndian, length_bigEndian] at same
        exact Nat.succ.inj same
      have firsts : first = first' := distinct.wide _ mem _ mem' widths
      rw [firsts, widths]

/-- The marker that is written for a length is followed by no more digits than any form has. -/
structure Picks (marker : Nat → Marker) (forms : LengthForms) : Prop where
  header : ∀ {n}, n < 2 ^ 32 → Length forms n ((marker n).header n)
  short : ∀ p ∈ forms.short, (marker p.1).form.width = 0
  wide : ∀ p ∈ forms.wide, ∀ n < 256 ^ p.2, (marker n).form.width ≤ p.2
  distinct : forms.Distinct

theorem Picks.noShorter {marker : Nat → Marker} {forms : LengthForms} (picks : Picks marker forms)
    {n : Nat} (bound : n < 2 ^ 32) {e : Bytes} (h : Length forms n e) :
    NoShorter (· = (marker n).header n) ((marker n).header n) e := by
  refine ⟨?_, fun same => h.eq_of_length picks.distinct (picks.header bound) same.symm⟩
  rw [length_header]
  cases h with
  | short mem => rw [picks.short _ mem, List.length_singleton]
  | wide mem fits =>
    rw [List.length_cons, length_bigEndian]
    exact Nat.succ_le_succ (picks.wide _ mem _ fits)

theorem width_lengthClass_le {n w : Nat} (doubled : ∃ k : Fin 3, w = 1 <<< k.val)
    (fits : n < 256 ^ w) : 1 <<< (Marker.lengthClass n).val ≤ w := by
  obtain ⟨k, rfl⟩ := doubled
  rw [Nat.one_shiftLeft, Nat.one_shiftLeft]
  exact Nat.pow_le_pow_right (by decide) (lengthClass_le fits)

theorem picks_string : Picks .forString .string where
  header := string_header
  short := by decide
  wide p mem n fits := by
    have doubled : ∀ p ∈ LengthForms.string.wide, ∃ k : Fin 3, p.2 = 1 <<< k.val := by decide
    rw [Marker.forString]
    split
    · exact Nat.zero_le _
    · exact width_lengthClass_le (doubled p mem) fits
  distinct := ⟨by decide, by decide, by decide⟩

theorem picks_bytes : Picks .forBytes .bytes where
  header := bytes_header
  short := by decide
  wide p mem n fits := by
    have doubled : ∀ p ∈ LengthForms.bytes.wide, ∃ k : Fin 3, p.2 = 1 <<< k.val := by decide
    exact width_lengthClass_le (doubled p mem) fits
  distinct := ⟨by decide, by decide, by decide⟩

theorem picks_ext : Picks .forExt .ext where
  header := ext_header
  short := by decide
  wide p mem n fits := by
    have doubled : ∀ p ∈ LengthForms.ext.wide, ∃ k : Fin 3, p.2 = 1 <<< k.val := by decide
    have fixed (k : Fin 5) : (Marker.fixExt k).form.width ≤ p.2 := Nat.zero_le _
    rw [Marker.forExt]
    split
    · exact fixed 0
    split
    · exact fixed 1
    split
    · exact fixed 2
    split
    · exact fixed 3
    split
    · exact fixed 4
    · exact width_lengthClass_le (doubled p mem) fits
  distinct := ⟨by decide, by decide, by decide⟩

def countWidth (n : Nat) : Nat := if n < 16 then 0 else if n < 0x10000 then 2 else 4

theorem width_forArray (n : Nat) : (Marker.forArray n).form.width = countWidth n := by
  rw [Marker.forArray, countWidth]
  split
  · rfl
  · split <;> rfl

theorem width_forMap (n : Nat) : (Marker.forMap n).form.width = countWidth n := by
  rw [Marker.forMap, countWidth]
  split
  · rfl
  · split <;> rfl

theorem countWidth_le {n w : Nat} (wide : w = 2 ∨ w = 4) (fits : n < 256 ^ w) :
    countWidth n ≤ w := by
  rw [countWidth]
  split
  · exact Nat.zero_le w
  obtain rfl | rfl := wide
  · have small : n < 0x10000 := fits
    rw [if_pos small]
  · split <;> decide

theorem Picks.of_countWidth {marker : Nat → Marker} {forms : LengthForms}
    (header : ∀ {n}, n < 2 ^ 32 → Length forms n ((marker n).header n))
    (width : ∀ n, (marker n).form.width = countWidth n)
    (short : ∀ p ∈ forms.short, countWidth p.1 = 0) (wide : ∀ p ∈ forms.wide, p.2 = 2 ∨ p.2 = 4)
    (distinct : forms.Distinct) : Picks marker forms where
  header := header
  short p mem := (width p.1).trans (short p mem)
  wide p mem n fits := by
    rw [width]
    exact countWidth_le (wide p mem) fits
  distinct := distinct

theorem picks_array : Picks .forArray .array :=
  .of_countWidth array_header width_forArray (by decide) (by decide)
    ⟨by decide, by decide, by decide⟩

theorem picks_map : Picks .forMap .map :=
  .of_countWidth map_header width_forMap (by decide) (by decide) ⟨by decide, by decide, by decide⟩

end Lengths

section Integers

variable {i : Int} {e : Bytes}

theorem Form.Counts.eq_digits {form : Form} {tail : Bytes} (h : form.Counts i tail) :
    tail = bigEndian form.width (patternOf form.width i) := by
  cases h with
  | integer => rfl
  | unsigned bound => rw [Form.width, patternOf_natCast bound]
  | signed bound => rw [Form.width, patternOf_signedOf bound]

/-- A marker without digits, or the one of a family for some width up to `1 <<< k`. -/
def Marker.UpTo (wide : Fin 4 → Marker) (k : Fin 4) (m : Marker) : Prop :=
  m.form.width = 0 ∨ ∃ j ≤ k, m = wide j

theorem Marker.UpTo.width {wide : Fin 4 → Marker} {k : Fin 4} {m : Marker} (h : m.UpTo wide k)
    (widths : ∀ k, (wide k).form.width = 1 <<< k.val) :
    m.form.width ≤ (wide k).form.width ∧ (m.form.width = (wide k).form.width → m = wide k) := by
  rw [widths, Nat.one_shiftLeft]
  obtain none | ⟨j, le, rfl⟩ := h
  · have positive : 0 < 2 ^ k.val := Nat.two_pow_pos _
    rw [none]
    exact ⟨Nat.zero_le _, fun same => by omega⟩
  · rw [widths, Nat.one_shiftLeft]
    refine ⟨Nat.pow_le_pow_right (by decide) le, fun same => ?_⟩
    rw [Fin.val_injective (Nat.pow_right_injective (Nat.le_refl 2) same)]

theorem forUnsigned_upTo {n : Nat} {k : Fin 4} (fits : n < 256 ^ (1 <<< k.val)) :
    (Marker.forUnsigned n).UpTo .uint k := by
  rw [Marker.forUnsigned]
  split
  · exact .inl rfl
  · split
    · exact .inr ⟨_, lengthClass_le fits, rfl⟩
    · rename_i large
      exact .inr ⟨3, lt_of_pow_lt_pow (j := 2) (Nat.le_of_not_lt large) fits, rfl⟩

theorem forNegative_upTo {k : Fin 4} (fits : -(256 ^ (1 <<< k.val)) ≤ 2 * i) (negative : i < 0) :
    (Marker.forNegative i).UpTo .int k := by
  -- an integer below zero fits a width if `-2 * i - 1` does so without a sign
  have cast : ((256 ^ (1 <<< k.val) : Nat) : Int) = 256 ^ (1 <<< k.val) := Int.natCast_pow 256 _
  have high : (-2 * i - 1).toNat < 256 ^ (1 <<< k.val) := by omega
  have exceeds {j : Nat} (low : 256 ^ (1 <<< j) ≤ (-2 * i - 1).toNat) : j < k.val :=
    lt_of_pow_lt_pow low high
  rw [Marker.forNegative]
  split
  · exact .inl rfl
  split
  · exact .inr ⟨0, Fin.zero_le k, rfl⟩
  split
  · exact .inr ⟨1, exceeds (j := 0) (by simp only [Nat.one_shiftLeft]; omega), rfl⟩
  split
  · exact .inr ⟨2, exceeds (j := 1) (by simp only [Nat.one_shiftLeft]; omega), rfl⟩
  · exact .inr ⟨3, exceeds (j := 2) (by simp only [Nat.one_shiftLeft]; omega), rfl⟩

/-- The marker that is written for an integer has no more digits than any other. One with as many is
the same, or stands for a signed number instead of an unsigned one. -/
theorem forInteger_least {m : Marker} {tail : Bytes} (h : m.form.Counts i tail) :
    (Marker.forInteger i).form.width ≤ m.form.width ∧
    ((Marker.forInteger i).form.width = m.form.width →
      m = .forInteger i ∨ ∃ k, .forInteger i = Marker.uint k ∧ m = .int k) := by
  have positive : ∀ n : Fin 128, Marker.forInteger n.val = .fixPos n := by decide
  have negative : ∀ n : Fin 32, Marker.forInteger (n.val - 32) = .fixNeg n := by decide
  cases m with
  | fixPos n =>
    cases h
    rw [positive n]
    exact ⟨Nat.le_refl _, fun _ => .inl rfl⟩
  | fixNeg n =>
    cases h
    rw [negative n]
    exact ⟨Nat.le_refl _, fun _ => .inl rfl⟩
  | uint k =>
    cases h with
    | @unsigned n _ fits =>
      have written : Marker.forInteger n = .forUnsigned n := if_pos (Int.natCast_nonneg n)
      obtain ⟨le, same⟩ := (forUnsigned_upTo fits).width fun _ => rfl
      rw [written]
      exact ⟨le, fun widths => .inl (same widths).symm⟩
  | int k =>
    cases h with
    | @signed n _ fits =>
      obtain ⟨low, high⟩ := signedOf_bounds fits
      generalize signedOf (1 <<< k.val) n = i at low high
      rw [Marker.forInteger]
      split
      · -- the number fits the unsigned form of the same width too, which is preferred
        rename_i positive
        have fits : i.toNat < 256 ^ (1 <<< k.val) := by
          rw [Int.toNat_lt positive, Int.natCast_pow]
          exact (show i ≤ 2 * i by omega).trans_lt high
        obtain ⟨le, same⟩ := (forUnsigned_upTo fits).width fun _ => rfl
        exact ⟨le, fun widths => .inr ⟨k, same widths, rfl⟩⟩
      · rename_i negative
        obtain ⟨le, same⟩ := (forNegative_upTo low (by omega)).width fun _ => rfl
        exact ⟨le, fun widths => .inl (same widths).symm⟩
  | float k =>
    simp only [Marker.form] at h
    split at h <;> cases h
  | _ => cases h

theorem integer_noShorter (h : Integer i e) {w : Bytes} (written : writeInteger i = ⟨w, none⟩) :
    NoShorter (fun e => e = w ∨ ∃ (k : Fin 4) (digits : Bytes),
      w = (Marker.uint k).toByte :: digits ∧ e = (Marker.int k).toByte :: digits) w e := by
  obtain ⟨m, tail, counts, rfl⟩ := integer_iff.mp h
  rw [writeInteger, Written.mk.injEq] at written
  obtain ⟨rfl, -⟩ := written
  obtain ⟨le, least⟩ := forInteger_least counts
  rw [counts.eq_digits]
  refine ⟨?_, fun same => ?_⟩
  · rw [length_header, List.length_cons, length_bigEndian]
    exact Nat.succ_le_succ le
  · rw [length_header, List.length_cons, length_bigEndian] at same
    obtain rfl | ⟨k, unsigned, rfl⟩ := least (Nat.succ.inj same)
    · exact .inl rfl
    · rw [unsigned]
      exact .inr ⟨k, _, rfl, rfl⟩

end Integers

/-- A form of a value that is what is written for it, or differs from that only in integers: one
whose written form is unsigned may be in the signed form with the same digits. -/
inductive AsWritten : Value → Bytes → Prop where
  | same {v : Value} {e : Bytes} : writeValue v = ⟨e, none⟩ → AsWritten v e
  | signed {v : Value} {i : Int} {k : Fin 4} {digits : Bytes} : v.integer? = some i →
      writeValue v = ⟨(Marker.uint k).toByte :: digits, none⟩ →
      Integer i ((Marker.int k).toByte :: digits) →
      AsWritten v ((Marker.int k).toByte :: digits)
  | array {items : List Value} {head body : Bytes} :
      writeArrayHeader items.length = ⟨head, none⟩ → Sequence AsWritten items body →
      AsWritten (.array items) (head ++ body)
  | map {entries : List (Value × Value)} {head body : Bytes} :
      writeMapHeader entries.length = ⟨head, none⟩ →
      Sequence (Pair AsWritten AsWritten) entries body → AsWritten (.map entries) (head ++ body)

def Value.IsFloatFree (v : Value) : Prop := ∀ f, ¬v.HasPart (.float f)

section Values

variable {e w : Bytes}

theorem NoShorter.same {v : Value} (written : writeValue v = ⟨w, none⟩)
    (h : NoShorter (· = w) w e) : NoShorter (AsWritten v) w e := by
  refine h.imp ?_
  rintro rfl
  exact .same written

theorem NoShorter.integer {v : Value} {i : Int} (integer : v.integer? = some i)
    (write : writeValue v = writeInteger i) (written : writeValue v = ⟨w, none⟩)
    (h : Integer i e) : NoShorter (AsWritten v) w e := by
  refine (integer_noShorter h (write ▸ written)).imp ?_
  rintro (rfl | ⟨k, digits, rfl, rfl⟩)
  · exact .same written
  · exact .signed integer written h

theorem text_noShorter {s : String} (h : Text s e) (written : writeString s = ⟨w, none⟩) :
    NoShorter (· = w) w e := by
  have short := h.length_lt
  obtain ⟨length⟩ := h
  rw [writeString, Written.mk.injEq, Nat.mod_eq_of_lt (by omega)] at written
  obtain ⟨rfl, -⟩ := written
  exact (picks_string.noShorter short length).before _

theorem raw_noShorter {bs : Bytes} (h : Raw bs e) (written : writeBytes bs = ⟨w, none⟩) :
    NoShorter (· = w) w e := by
  have short := h.length_lt
  obtain ⟨length⟩ := h
  rw [writeBytes, Written.mk.injEq, Nat.mod_eq_of_lt (by omega)] at written
  obtain ⟨rfl, -⟩ := written
  exact (picks_bytes.noShorter short length).before _

theorem counted_noShorter {what : Counted} {marker : Nat → Marker} {forms : LengthForms}
    (picks : Picks marker forms) {n : Nat} (h : Length forms n e)
    (written : writeCounted what marker n = ⟨w, none⟩) : NoShorter (· = w) w e := by
  obtain ⟨bound, rfl⟩ := counted_written written
  exact picks.noShorter bound h

theorem sequence_noShorter {α : Type} {P Q : α → Bytes → Prop} {f : α → Written} {as : List α}
    (each : ∀ a ∈ as, ∀ {e w}, P a e → f a = ⟨w, none⟩ → NoShorter (Q a) w e)
    (s : Sequence P as e) (written : .join (as.map f) = (⟨w, none⟩ : Written)) :
    NoShorter (Sequence Q as) w e := by
  induction s generalizing w with
  | nil =>
    cases written
    exact .self .nil
  | cons head _ ih =>
    obtain ⟨x, y, first, rest, rfl⟩ := Written.append_eq_iff.mp written
    obtain ⟨here, there⟩ := List.forall_mem_cons.mp each
    exact (here head first).append (ih there rest) .cons

theorem value_noShorter {v : Value} (form : Encodes v e) (plain : v.IsFloatFree)
    (written : writeValue v = ⟨w, none⟩) : NoShorter (AsWritten v) w e := by
  induction v using Value.nestedInduct generalizing e w with
  | scalar v flat =>
    cases form with
    | nil h =>
      cases h
      cases written
      exact .self (.same rfl)
    | bool h =>
      cases written
      cases h <;> exact .self (.same rfl)
    | int h => exact .integer rfl rfl written h
    | uint _ h => exact .integer rfl rfl written h
    | single => exact absurd (.self _) (plain _)
    | double => exact absurd (.self _) (plain _)
    | string h => exact .same written (text_noShorter h written)
    | bytes h => exact .same written (raw_noShorter h written)
    | ext length =>
      obtain ⟨head, body, first, rest, rfl⟩ := Written.append_eq_iff.mp written
      cases rest
      exact .same written ((counted_noShorter picks_ext length first).before _)
    | array | map => cases flat
  | array items ih =>
    cases form with
    | array length body =>
      obtain ⟨head, tail, first, rest, rfl⟩ := Written.append_eq_iff.mp written
      rw [writeItems_eq_join] at rest
      have items := sequence_noShorter (fun v mem _ _ form =>
        ih v mem form fun f part => plain f (.item mem part)) body rest
      refine (counted_noShorter picks_array length first).append items ?_
      rintro rfl members
      exact .array first members
  | map entries ih =>
    cases form with
    | map length body =>
      obtain ⟨head, tail, first, rest, rfl⟩ := Written.append_eq_iff.mp written
      rw [writeEntries_eq_join] at rest
      have each : ∀ entry ∈ entries, ∀ {e w}, Pair Encodes Encodes entry e →
          writeValue entry.1 ++ writeValue entry.2 = ⟨w, none⟩ →
          NoShorter (Pair AsWritten AsWritten entry) w e := by
        rintro entry mem e w ⟨key, value⟩ both
        obtain ⟨_, _, wroteKey, wroteValue, rfl⟩ := Written.append_eq_iff.mp both
        obtain ⟨ihKey, ihValue⟩ := ih _ mem
        have keys := ihKey key (fun f part => plain f (.key mem part)) wroteKey
        have values := ihValue value (fun f part => plain f (.value mem part)) wroteValue
        exact keys.append values .mk
      refine (counted_noShorter picks_map length first).append
        (sequence_noShorter each body rest) ?_
      rintro rfl members
      exact .map first members

theorem sequence_length_eq {α : Type} {P : α → Bytes → Prop} {f : α → Written} {as : List α}
    (each : ∀ a ∈ as, ∀ {e w}, P a e → f a = ⟨w, none⟩ → w.length = e.length)
    (s : Sequence P as e) (written : .join (as.map f) = (⟨w, none⟩ : Written)) :
    w.length = e.length := by
  induction s generalizing w with
  | nil =>
    cases written
    rfl
  | cons head _ ih =>
    obtain ⟨x, y, first, rest, rfl⟩ := Written.append_eq_iff.mp written
    obtain ⟨here, there⟩ := List.forall_mem_cons.mp each
    rw [List.length_append, List.length_append, here head first, ih there rest]

theorem bytes_unique {x : Written} {bs : Bytes} (h : x = ⟨w, none⟩) (h' : x = ⟨bs, none⟩) :
    w = bs :=
  congrArg Written.bytes (h.symm.trans h')

theorem AsWritten.length_eq {v : Value} (h : AsWritten v e) (written : writeValue v = ⟨w, none⟩) :
    w.length = e.length := by
  induction v using Value.nestedInduct generalizing e w with
  | scalar v flat =>
    cases h with
    | same h => rw [bytes_unique written h]
    | signed _ h => rw [bytes_unique written h, List.length_cons, List.length_cons]
    | array | map => cases flat
  | array items ih =>
    cases h with
    | same h => rw [bytes_unique written h]
    | signed integer => cases integer
    | array head body =>
      obtain ⟨x, y, first, rest, rfl⟩ := Written.append_eq_iff.mp written
      rw [writeItems_eq_join] at rest
      rw [List.length_append, List.length_append, bytes_unique first head,
        sequence_length_eq ih body rest]
  | map entries ih =>
    cases h with
    | same h => rw [bytes_unique written h]
    | signed integer => cases integer
    | map head body =>
      obtain ⟨x, y, first, rest, rfl⟩ := Written.append_eq_iff.mp written
      rw [writeEntries_eq_join] at rest
      have each : ∀ entry ∈ entries, ∀ {e w}, Pair AsWritten AsWritten entry e →
          writeValue entry.1 ++ writeValue entry.2 = ⟨w, none⟩ → w.length = e.length := by
        rintro entry mem e w ⟨key, value⟩ both
        obtain ⟨_, _, wroteKey, wroteValue, rfl⟩ := Written.append_eq_iff.mp both
        obtain ⟨ihKey, ihValue⟩ := ih _ mem
        rw [List.length_append, List.length_append, ihKey key wroteKey, ihValue value wroteValue]
      rw [List.length_append, List.length_append, bytes_unique first head,
        sequence_length_eq each body rest]

end Values

/-- What a read takes for a value without floats is no shorter than what a write appends for that
value. It is no longer either exactly if the two agree in every byte, but for integers in signed
forms. -/
theorem writeValue_shortest {limit : Nat} {src rest : Bytes} {v : Value}
    (read : readValue limit src = .ok v rest) (plain : v.IsFloatFree) :
    ∃ used w, src = used ++ rest ∧ (writeValue v).toExcept = .ok w ∧
      w.length ≤ used.length ∧ (w.length = used.length ↔ AsWritten v used) := by
  obtain ⟨used, ⟨form, -⟩, rfl⟩ := (reads_value limit).sound read
  have written := Written.eq_mk ((writeValue_error_eq_none_iff v).mpr form.isCounted)
  obtain ⟨le, tight⟩ := value_noShorter form plain written
  exact ⟨used, _, rfl, Written.toExcept_eq_ok_iff.mpr written, le, tight,
    fun same => same.length_eq written⟩

theorem writeValue_shortest_signed :
    readValue 1 [0x92, 0xd1, 1, 0, 0xa1, 0x61, 7] = .ok (.array [.int 256, .string "a"]) [7] ∧
    (Value.array [.int 256, .string "a"]).IsFloatFree ∧
    ∃ used w, [0x92, 0xd1, 1, 0, 0xa1, 0x61, 7] = used ++ [7] ∧
      (writeValue (.array [.int 256, .string "a"])).toExcept = .ok w ∧
      w.length ≤ used.length ∧
      (w.length = used.length ↔ AsWritten (.array [.int 256, .string "a"]) used) := by
  have read : readValue 1 [0x92, 0xd1, 1, 0, 0xa1, 0x61, 7] =
      .ok (.array [.int 256, .string "a"]) [7] := by
    cbv
  have plain : (Value.array [.int 256, .string "a"]).IsFloatFree := by
    rintro f (_ | ⟨mem, part⟩)
    rw [List.mem_pair] at mem
    obtain rfl | rfl := mem <;> cases part
  exact ⟨read, plain, writeValue_shortest read plain⟩

end HubPack
