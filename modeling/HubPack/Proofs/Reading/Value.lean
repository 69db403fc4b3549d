import HubPack.Proofs.Number.Datum
import HubPack.Proofs.Reading.Length
import HubPack.Text.Utf8.Lemmas

namespace HubPack
open Wire BinaryFormat

theorem eq_nil_of_form {m : Marker} (h : m.form = .nil) : m = .nil := by
  cases m with
  | nil => rfl
  | float k =>
    rw [Marker.form] at h
    split at h <;> cases h
  | _ => cases h

theorem eq_bool_of_form {m : Marker} {b : Bool} (h : m.form = .bool b) : m = .bool b := by
  cases m with
  | bool c =>
    cases h
    rfl
  | float k =>
    rw [Marker.form] at h
    split at h <;> cases h
  | _ => cases h

theorem reads_nil : Reads readNil fun _ e => Nil e where
  complete h rest := by
    cases h
    rfl
  sound {bs rest _} h := by
    obtain ⟨m, mid, hm, hk⟩ := bind_eq_ok_iff.mp h
    obtain ⟨_, rfl, rfl⟩ := reads_marker.sound hm
    generalize hf : m.form = form at hk
    cases form with
    | nil =>
      cases hk
      rw [eq_nil_of_form hf]
      exact ⟨_, .mk, rfl⟩
    | _ => cases hk

theorem reads_bool : Reads readBool Flag where
  complete h rest := by cases h <;> rfl
  sound {bs rest b} h := by
    obtain ⟨m, mid, hm, hk⟩ := bind_eq_ok_iff.mp h
    obtain ⟨_, rfl, rfl⟩ := reads_marker.sound hm
    generalize hf : m.form = form at hk
    cases form with
    | bool b =>
      cases hk
      rw [eq_bool_of_form hf]
      cases b with
      | false => exact ⟨_, .false, rfl⟩
      | true => exact ⟨_, .true, rfl⟩
    | _ => cases hk

/-- What stands after a marker, for the integer that the two stand for. -/
inductive Form.Counts : Form → Int → Bytes → Prop where
  | integer (i : Int) : Counts (.integer i) i []
  | unsigned {n width : Nat} : n < 256 ^ width →
      Counts (.unsigned width) n (bigEndian width n)
  | signed {n width : Nat} : n < 256 ^ width →
      Counts (.signed width) (signedOf width n) (bigEndian width n)

theorem signed_counts {i : Int} {width : Nat} (low : -(256 ^ width) ≤ 2 * i)
    (high : 2 * i < 256 ^ width) :
    (Form.signed width).Counts i (bigEndian width (patternOf width i)) := by
  have h := Form.Counts.signed (patternOf_lt width i)
  rwa [signedOf_patternOf low high] at h

theorem integer_iff {i : Int} {e : Bytes} : Integer i e ↔
    ∃ (m : Marker) (tail : Bytes), m.form.Counts i tail ∧ e = m.toByte :: tail := by
  constructor
  · intro h
    cases h with
    | positive small => exact ⟨.fixPos ⟨_, small⟩, [], .integer _, rfl⟩
    | @negative n positive small =>
      have value : -(n : Int) = ((32 - n : Nat) : Int) - 32 := by omega
      have byte : 256 - n = 0xe0 + (32 - n) := by omega
      rw [value, byte]
      exact ⟨.fixNeg ⟨32 - n, by omega⟩, [], .integer _, rfl⟩
    | unsigned mem bound =>
      simp only [List.mem_cons, Prod.mk.injEq, List.not_mem_nil, or_false] at mem
      obtain ⟨rfl, rfl⟩ | ⟨rfl, rfl⟩ | ⟨rfl, rfl⟩ | ⟨rfl, rfl⟩ := mem
      · exact ⟨.uint 0, _, .unsigned bound, rfl⟩
      · exact ⟨.uint 1, _, .unsigned bound, rfl⟩
      · exact ⟨.uint 2, _, .unsigned bound, rfl⟩
      · exact ⟨.uint 3, _, .unsigned bound, rfl⟩
    | signed mem low high =>
      simp only [List.mem_cons, Prod.mk.injEq, List.not_mem_nil, or_false] at mem
      obtain ⟨rfl, rfl⟩ | ⟨rfl, rfl⟩ | ⟨rfl, rfl⟩ | ⟨rfl, rfl⟩ := mem
      · exact ⟨.int 0, _, signed_counts low high, rfl⟩
      · exact ⟨.int 1, _, signed_counts low high, rfl⟩
      · exact ⟨.int 2, _, signed_counts low high, rfl⟩
      · exact ⟨.int 3, _, signed_counts low high, rfl⟩
  · rintro ⟨m, tail, h, rfl⟩
    cases m with
    | fixPos n =>
      cases h
      exact .positive n.isLt
    | fixNeg n =>
      cases h
      have value : (n.val : Int) - 32 = -((32 - n.val : Nat) : Int) := by omega
      have byte : 0xe0 + n.val = 256 - (32 - n.val) := by omega
      rw [value, Marker.toByte, Marker.code, byte]
      exact .negative (by omega) (by omega)
    | uint k =>
      have listed : ∀ k : Fin 4,
          (0xcc + k.val, 1 <<< k.val) ∈ [(0xcc, 1), (0xcd, 2), (0xce, 4), (0xcf, 8)] := by decide
      cases h with
      | unsigned bound => exact .unsigned (listed k) bound
    | int k =>
      have listed : ∀ k : Fin 4,
          (0xd0 + k.val, 1 <<< k.val) ∈ [(0xd0, 1), (0xd1, 2), (0xd2, 4), (0xd3, 8)] := by decide
      cases h with
      | signed bound =>
        obtain ⟨low, high⟩ := signedOf_bounds bound
        have written := Integer.signed (listed k) low high
        rwa [patternOf_signedOf bound] at written
    | float k =>
      simp only [Marker.form] at h
      split at h <;> cases h
    | _ => cases h

theorem reads_integer : Reads readInteger Integer where
  complete {i e} h rest := by
    obtain ⟨m, tail, hc, rfl⟩ := integer_iff.mp h
    rw [List.cons_append, readInteger, bind_of_ok (readMarker_cons m _)]
    generalize m.form = form at hc
    cases hc with
    | integer i => rfl
    | unsigned bound => exact ((reads_unsigned _).map _).complete ⟨_, ⟨bound, rfl⟩, rfl⟩ rest
    | signed bound => exact ((reads_unsigned _).map _).complete ⟨_, ⟨bound, rfl⟩, rfl⟩ rest
  sound {bs rest i} h := by
    obtain ⟨m, mid, hm, hk⟩ := bind_eq_ok_iff.mp h
    obtain ⟨_, rfl, rfl⟩ := reads_marker.sound hm
    suffices found : ∃ tail, m.form.Counts i tail ∧ mid = tail ++ rest by
      obtain ⟨tail, hc, rfl⟩ := found
      exact ⟨m.toByte :: tail, integer_iff.mpr ⟨m, tail, hc, rfl⟩, rfl⟩
    generalize m.form = form at hk ⊢
    cases form with
    | integer =>
      cases hk
      exact ⟨[], .integer _, rfl⟩
    | unsigned =>
      obtain ⟨_, ⟨n, ⟨bound, rfl⟩, rfl⟩, rfl⟩ := ((reads_unsigned _).map _).sound hk
      exact ⟨_, .unsigned bound, rfl⟩
    | signed =>
      obtain ⟨_, ⟨n, ⟨bound, rfl⟩, rfl⟩, rfl⟩ := ((reads_unsigned _).map _).sound hk
      exact ⟨_, .signed bound, rfl⟩
    | _ => cases hk

theorem integer_bounds {i : Int} {e : Bytes} (h : Integer i e) : -2 ^ 63 ≤ i ∧ i < 2 ^ 64 := by
  cases h with
  | positive => omega
  | negative => omega
  | unsigned mem bound =>
    simp only [List.mem_cons, Prod.mk.injEq, List.not_mem_nil, or_false] at mem
    obtain ⟨_, rfl⟩ | ⟨_, rfl⟩ | ⟨_, rfl⟩ | ⟨_, rfl⟩ := mem <;> omega
  | signed mem low high =>
    simp only [List.mem_cons, Prod.mk.injEq, List.not_mem_nil, or_false] at mem
    obtain ⟨_, rfl⟩ | ⟨_, rfl⟩ | ⟨_, rfl⟩ | ⟨_, rfl⟩ := mem <;> omega

theorem toNat_ofNat_integer {i : Int} {e : Bytes} (h : Integer i e) (nonneg : 0 ≤ i) :
    ((UInt64.ofNat i.toNat).toNat : Int) = i := by
  obtain ⟨-, high⟩ := integer_bounds h
  rw [UInt64.toNat_ofNat_of_lt' (by simp only [UInt64.size]; omega), Int.toNat_of_nonneg nonneg]

theorem reads_int : Reads readInt fun i e => Integer i.toInt e := by
  refine (reads_integer.bind
    (R := fun i j e => (i < 2 ^ 63 ∧ j = Int64.ofInt i) ∧ e = []) fun i => ?_).congr
    fun j e => ⟨?_, fun h => ?_⟩
  · split
    · rename_i small
      exact (Reads.done _).congr fun j e =>
        ⟨fun h => ⟨⟨small, h.1⟩, h.2⟩, fun h => ⟨h.1.2, h.2⟩⟩
    · rename_i large
      exact (Reads.malformed _).congr fun j e => ⟨False.elim, fun h => large h.1.1⟩
  · rintro ⟨i, e₁, _, h, ⟨⟨small, rfl⟩, rfl⟩, rfl⟩
    rwa [List.append_nil, Int64.toInt_ofInt_of_le (integer_bounds h).1 small]
  · exact ⟨_, e, [], h, ⟨⟨j.toInt_lt, (Int64.ofInt_toInt j).symm⟩, rfl⟩, by simp⟩

theorem encodes_ofInteger {i : Int} {e : Bytes} (h : Integer i e) :
    Encodes (.ofInteger i) e := by
  obtain ⟨low, high⟩ := integer_bounds h
  rw [Value.ofInteger]
  split
  · rename_i small
    exact .int (by rwa [Int64.toInt_ofInt_of_le low small])
  · have back := toNat_ofNat_integer h (by omega)
    exact .uint (by omega) (by rwa [back])

theorem reads_decoded (n : Nat) :
    Reads (do
      match Utf8.decode (← takeBytes n) with
      | .ok s => pure s
      | .error fault => malformed (.utf8 fault))
      fun s e => (Utf8.encode s).length = n ∧ e = Utf8.encode s := by
  refine ((reads_bytes n).bind (R := fun bs s e => bs = Utf8.encode s ∧ e = [])
    fun bs => ?_).congr fun s e => ⟨?_, ?_⟩
  · split
    · rename_i t ht
      exact (Reads.done t).congr fun s e => by simp [← Utf8.decode_eq_ok_iff, ht, eq_comm]
    · rename_i fault hf
      exact (Reads.malformed _).congr fun s e => by simp [← Utf8.decode_eq_ok_iff, hf]
  · rintro ⟨_, _, _, ⟨length, rfl⟩, ⟨rfl, rfl⟩, rfl⟩
    exact ⟨length, List.append_nil _⟩
  · rintro ⟨length, rfl⟩
    exact ⟨_, _, [], ⟨length, rfl⟩, ⟨rfl, rfl⟩, by simp⟩

theorem reads_text : Reads readString Text := by
  refine (Reads.announced announces_string reads_decoded (fun m x h => ?_) fun m h => ?_).congr
    fun s e => ⟨?_, ?_⟩
  · generalize m.form = form at h ⊢
    subst h
    rfl
  · split
    · rename_i x hx
      exact absurd hx (h x)
    · exact .malformed _
  · rintro ⟨_, head, _, h, ⟨rfl, rfl⟩, rfl⟩
    exact .mk h
  · rintro ⟨h⟩
    exact ⟨_, _, _, h, ⟨rfl, rfl⟩, rfl⟩

theorem reads_raw : Reads readBytes Raw := by
  refine (Reads.announced announces_bytes reads_bytes (fun m x h => by rw [h]) fun m h => ?_).congr
    fun bs e => ⟨?_, ?_⟩
  · split
    · rename_i x hx
      exact absurd hx (h x)
    · exact .malformed _
  · rintro ⟨_, head, _, h, ⟨rfl, rfl⟩, rfl⟩
    exact .mk h
  · rintro ⟨h⟩
    exact ⟨_, _, _, h, ⟨rfl, rfl⟩, rfl⟩

theorem reads_ext (x : Extent) : Reads (readExt x) fun v e => ∃ tag data head,
    x.Measures data.length head ∧ v = .ext tag data ∧ e = head ++ tag.toUInt8 :: data := by
  refine ((reads_extent x).bind fun n => (reads_unsigned 1).bind fun tag =>
    (reads_bytes n).bind fun data => .done (Value.ext (UInt8.ofNat tag).toInt8 data)).congr
      fun v e => ⟨?_, ?_⟩
  · rintro ⟨n, head, _, h, ⟨tag, _, _, ⟨_, rfl⟩, ⟨data, _, _, ⟨rfl, rfl⟩, ⟨rfl, rfl⟩, rfl⟩, rfl⟩,
      rfl⟩
    refine ⟨_, _, head, h, rfl, ?_⟩
    simp [bigEndian]
  · rintro ⟨tag, data, head, h, rfl, rfl⟩
    refine ⟨_, head, _, h, ⟨tag.toUInt8.toNat, _, _, ⟨tag.toUInt8.toNat_lt, rfl⟩,
      ⟨data, _, [], ⟨rfl, rfl⟩, ⟨?_, rfl⟩, rfl⟩, rfl⟩, ?_⟩
    · rw [UInt8.ofNat_toNat]
      rfl
    · simp [bigEndian]

theorem depth_ofInteger (i : Int) : (Value.ofInteger i).depth = 0 := by
  rw [Value.ofInteger]
  split <;> rfl

theorem peekMarker_ok {bs mid : Bytes} {m : Marker} (h : peekMarker bs = .ok m mid) :
    ∃ tail, bs = m.toByte :: tail ∧ mid = bs := by
  cases bs with
  | nil => cases h
  | cons b bs =>
    cases h
    exact ⟨bs, by rw [Marker.toByte_ofByte], rfl⟩

theorem toByte_of_single {m : Marker} (h : m.form = .single) : m.toByte = 0xca := by
  cases m with
  | float k =>
    revert k
    decide
  | _ => cases h

theorem toByte_of_double {m : Marker} (h : m.form = .double) : m.toByte = 0xcb := by
  cases m with
  | float k =>
    revert k
    decide
  | _ => cases h

theorem Reads.arrayOf {α β : Type} {r : Reader α} {P : α → Bytes → Prop} (hr : Reads r P)
    (f : List α → β) :
    Reads (do
      let n ← readArrayHeader
      f <$> readMany r n) fun b e => ∃ as, ArrayOf P as e ∧ b = f as := by
  refine (reads_arrayHeader.bind fun n => (hr.many n).map f).congr fun b e => ⟨?_, ?_⟩
  · rintro ⟨_, head, body, length, ⟨as, ⟨rfl, s⟩, rfl⟩, rfl⟩
    exact ⟨as, .mk length s, rfl⟩
  · rintro ⟨as, ⟨length, s⟩, rfl⟩
    exact ⟨_, _, _, length, ⟨as, ⟨rfl, s⟩, rfl⟩, rfl⟩

theorem Reads.mapOf {α β γ : Type} {r : Reader α} {r' : Reader β} {P : α → Bytes → Prop}
    {R : β → Bytes → Prop} (hr : Reads r P) (hr' : Reads r' R) (f : List (α × β) → γ) :
    Reads (do
      let n ← readMapHeader
      f <$> readMany (readPair r r') n) fun c e => ∃ entries, MapOf P R entries e ∧
        c = f entries := by
  refine (reads_mapHeader.bind fun n => ((hr.pair hr').many n).map f).congr fun c e => ⟨?_, ?_⟩
  · rintro ⟨_, head, body, length, ⟨entries, ⟨rfl, s⟩, rfl⟩, rfl⟩
    exact ⟨entries, .mk length s, rfl⟩
  · rintro ⟨entries, ⟨length, s⟩, rfl⟩
    exact ⟨_, _, _, length, ⟨entries, ⟨rfl, s⟩, rfl⟩, rfl⟩

theorem reads_single : Reads ((fun n => Value.float (.ofBinary32 (UInt32.ofNat n))) <$>
    readUnsigned 4) fun v e => ∃ bits : UInt32,
      v = .float (.ofBinary32 bits) ∧ e = bigEndian 4 bits.toNat := by
  refine ((reads_unsigned 4).map _).congr fun v e => ⟨?_, ?_⟩
  · rintro ⟨n, ⟨bound, rfl⟩, rfl⟩
    exact ⟨UInt32.ofNat n, rfl, by rw [UInt32.toNat_ofNat_of_lt' bound]⟩
  · rintro ⟨bits, rfl, rfl⟩
    exact ⟨bits.toNat, ⟨bits.toNat_lt, rfl⟩, by rw [UInt32.ofNat_toNat]⟩

theorem reads_double : Reads ((fun n => Value.float ⟨UInt64.ofNat n⟩) <$> readUnsigned 8)
    fun v e => ∃ f : Binary64, v = .float f ∧ e = bigEndian 8 f.bits.toNat := by
  refine ((reads_unsigned 8).map _).congr fun v e => ⟨?_, ?_⟩
  · rintro ⟨n, ⟨bound, rfl⟩, rfl⟩
    exact ⟨⟨UInt64.ofNat n⟩, rfl, by rw [UInt64.toNat_ofNat_of_lt' bound]⟩
  · rintro ⟨f, rfl, rfl⟩
    exact ⟨f.bits.toNat, ⟨f.bits.toNat_lt, rfl⟩, by rw [UInt64.ofNat_toNat]⟩

theorem readValueWithin_integer (limit levels : Nat) {i : Int} {e : Bytes} (h : Integer i e)
    (rest : Bytes) : readValueWithin limit levels (e ++ rest) = .ok (.ofInteger i) rest := by
  obtain ⟨m, tail, hc, rfl⟩ := integer_iff.mp h
  have read := (reads_integer.map Value.ofInteger).complete ⟨i, h, rfl⟩ rest
  rw [readValueWithin, List.cons_append, bind_of_ok (peekMarker_cons m _)]
  generalize m.form = form at hc
  cases hc <;> exact read

theorem readValueWithin_complete {limit levels : Nat}
    (inner : ∀ l, levels = l + 1 → Reads (readValueWithin limit l) (Within l))
    {v : Value} {e : Bytes} (h : Within levels v e) (rest : Bytes) :
    readValueWithin limit levels (e ++ rest) = .ok v rest := by
  obtain ⟨enc, deep⟩ := id h
  -- the first byte of each form is a marker for which the read has a branch
  cases enc with
  | nil h =>
    cases h
    rw [readValueWithin]
    exact (reads_nil.bind fun _ => .done Value.nil).complete ⟨(), _, [], .mk, ⟨rfl, rfl⟩, rfl⟩ rest
  | bool h =>
    rw [readValueWithin]
    cases h with
    | false => exact (reads_bool.map Value.bool).complete ⟨_, .false, rfl⟩ rest
    | true => exact (reads_bool.map Value.bool).complete ⟨_, .true, rfl⟩ rest
  | @int i _ h =>
    have small : Value.int i = .ofInteger i.toInt := by
      have high : i.toInt < 0x8000000000000000 := i.toInt_lt
      rw [Value.ofInteger, if_pos high, Int64.ofInt_toInt]
    rw [small]
    exact readValueWithin_integer limit levels h rest
  | @uint u _ large h =>
    have big : Value.uint u = .ofInteger u.toNat := by
      rw [Value.ofInteger, if_neg (by omega), Int.toNat_natCast, UInt64.ofNat_toNat]
    rw [big]
    exact readValueWithin_integer limit levels h rest
  | single bits =>
    rw [readValueWithin]
    exact reads_single.complete ⟨bits, rfl, rfl⟩ rest
  | double f =>
    rw [readValueWithin]
    exact reads_double.complete ⟨f, rfl, rfl⟩ rest
  | string h =>
    obtain ⟨length⟩ := id h
    obtain ⟨m, x, tail, hm, hx, rfl⟩ := announces_string.length_iff.mp length
    rw [readValueWithin, List.cons_append, List.cons_append, bind_of_ok (peekMarker_cons m _), hm]
    exact (reads_text.map Value.string).complete ⟨_, h, rfl⟩ rest
  | bytes h =>
    obtain ⟨length⟩ := id h
    obtain ⟨m, x, tail, hm, hx, rfl⟩ := announces_bytes.length_iff.mp length
    rw [readValueWithin, List.cons_append, List.cons_append, bind_of_ok (peekMarker_cons m _), hm]
    exact (reads_raw.map Value.bytes).complete ⟨_, h, rfl⟩ rest
  | array length =>
    obtain ⟨m, x, tail, hm, hx, rfl⟩ := announces_array.length_iff.mp length
    rw [readValueWithin, List.cons_append, List.cons_append, bind_of_ok (peekMarker_cons m _), hm]
    cases levels with
    | zero => exact absurd deep (Nat.not_succ_le_zero _)
    | succ l =>
      exact ((inner l rfl).arrayOf Value.array).complete ⟨_, within_array_iff.mp h, rfl⟩ rest
  | map length =>
    obtain ⟨m, x, tail, hm, hx, rfl⟩ := announces_map.length_iff.mp length
    rw [readValueWithin, List.cons_append, List.cons_append, bind_of_ok (peekMarker_cons m _), hm]
    cases levels with
    | zero => exact absurd deep (Nat.not_succ_le_zero _)
    | succ l =>
      exact ((inner l rfl).mapOf (inner l rfl) Value.map).complete
        ⟨_, within_map_iff.mp h, rfl⟩ rest
  | ext length =>
    obtain ⟨m, x, tail, hm, hx, rfl⟩ := announces_ext.length_iff.mp length
    rw [readValueWithin, List.cons_append, List.cons_append, bind_of_ok (peekMarker_cons m _), hm]
    exact (reads_ext x).complete ⟨_, _, tail, hx, rfl, rfl⟩ rest

theorem readValueWithin_sound {limit levels : Nat}
    (inner : ∀ l, levels = l + 1 → Reads (readValueWithin limit l) (Within l))
    {v : Value} {bs rest : Bytes} (h : readValueWithin limit levels bs = .ok v rest) :
    ∃ e, Within levels v e ∧ bs = e ++ rest := by
  rw [readValueWithin] at h
  obtain ⟨m, mid, hm, h⟩ := bind_eq_ok_iff.mp h
  obtain ⟨tail, rfl, rfl⟩ := peekMarker_ok hm
  generalize hf : m.form = form at h
  cases form with
  | nil =>
    obtain ⟨e, ⟨_, _, _, hn, ⟨rfl, rfl⟩, rfl⟩, same⟩ :=
      (reads_nil.bind fun _ => .done Value.nil).sound h
    exact ⟨_, ⟨.nil (by rwa [List.append_nil]), Nat.zero_le _⟩, same⟩
  | bool b =>
    obtain ⟨e, ⟨b, hb, rfl⟩, same⟩ := (reads_bool.map Value.bool).sound h
    exact ⟨e, ⟨.bool hb, Nat.zero_le _⟩, same⟩
  | integer | unsigned | signed =>
    obtain ⟨e, ⟨i, hi, rfl⟩, same⟩ := (reads_integer.map Value.ofInteger).sound h
    exact ⟨e, ⟨encodes_ofInteger hi, depth_ofInteger i ▸ Nat.zero_le _⟩, same⟩
  | single =>
    have number := (bind_of_ok (readMarker_cons m tail)).symm.trans h
    obtain ⟨_, ⟨bits, rfl, rfl⟩, rfl⟩ := reads_single.sound number
    exact ⟨_, ⟨.single bits, Nat.zero_le _⟩, by rw [toByte_of_single hf]; rfl⟩
  | double =>
    have number := (bind_of_ok (readMarker_cons m tail)).symm.trans h
    obtain ⟨_, ⟨f, rfl, rfl⟩, rfl⟩ := reads_double.sound number
    exact ⟨_, ⟨.double f, Nat.zero_le _⟩, by rw [toByte_of_double hf]; rfl⟩
  | string =>
    obtain ⟨e, ⟨s, hs, rfl⟩, same⟩ := (reads_text.map Value.string).sound h
    exact ⟨e, ⟨.string hs, Nat.zero_le _⟩, same⟩
  | bytes =>
    obtain ⟨e, ⟨bs, hbs, rfl⟩, same⟩ := (reads_raw.map Value.bytes).sound h
    exact ⟨e, ⟨.bytes hbs, Nat.zero_le _⟩, same⟩
  | array =>
    cases levels with
    | zero =>
      obtain ⟨_, _, _, impossible⟩ := bind_eq_ok_iff.mp h
      cases impossible
    | succ l =>
      obtain ⟨e, ⟨items, within, rfl⟩, same⟩ := ((inner l rfl).arrayOf Value.array).sound h
      exact ⟨e, within_array_iff.mpr within, same⟩
  | map =>
    cases levels with
    | zero =>
      obtain ⟨_, _, _, impossible⟩ := bind_eq_ok_iff.mp h
      cases impossible
    | succ l =>
      obtain ⟨e, ⟨entries, within, rfl⟩, same⟩ :=
        ((inner l rfl).mapOf (inner l rfl) Value.map).sound h
      exact ⟨e, within_map_iff.mpr within, same⟩
  | ext x =>
    have body := (bind_of_ok (readMarker_cons m tail)).symm.trans h
    obtain ⟨_, ⟨tag, data, head, hx, rfl, rfl⟩, rfl⟩ := (reads_ext x).sound body
    have length := announces_ext.length_iff.mpr ⟨m, x, head, hf, hx, rfl⟩
    exact ⟨_, ⟨.ext length, Nat.zero_le _⟩, rfl⟩
  | reserved => cases h

theorem reads_within (limit levels : Nat) :
    Reads (readValueWithin limit levels) (Within levels) := by
  -- the members of a container are read with a level less
  induction levels with
  | zero =>
    have inner : ∀ l, 0 = l + 1 → Reads (readValueWithin limit l) (Within l) := nofun
    exact ⟨readValueWithin_complete inner, readValueWithin_sound inner⟩
  | succ levels ih =>
    have inner : ∀ l, levels + 1 = l + 1 → Reads (readValueWithin limit l) (Within l) :=
      fun l same => Nat.succ.inj same ▸ ih
    exact ⟨readValueWithin_complete inner, readValueWithin_sound inner⟩

theorem reads_value (limit : Nat) : Reads (readValue limit) (Within limit) :=
  reads_within limit limit

theorem reads_skip (limit : Nat) : Reads (skipValue limit) fun _ e => ∃ v, Within limit v e := by
  refine ((reads_value limit).bind fun _ => .done ()).congr fun u e => ⟨?_, ?_⟩
  · rintro ⟨v, _, _, h, ⟨_, rfl⟩, rfl⟩
    exact ⟨v, by rwa [List.append_nil]⟩
  · rintro ⟨v, h⟩
    exact ⟨v, e, [], h, ⟨rfl, rfl⟩, (List.append_nil e).symm⟩

/-- The grammar of values is exact: a read answers a value and leaves the rest unread exactly if
the bytes before the rest are a form of the value and it nests within the limit, and a skip gets
past exactly such forms. The float in a form of 32 bits is the number of these bits, and the bytes
of a text are those of UTF-8. -/
theorem readValue_exact (limit : Nat) :
    (∀ (v : Value) (e rest : Bytes),
      readValue limit (e ++ rest) = .ok v rest ↔ Encodes v e ∧ v.depth ≤ limit) ∧
    (∀ src rest : Bytes, skipValue limit src = .ok () rest ↔
      ∃ v e, src = e ++ rest ∧ Encodes v e ∧ v.depth ≤ limit) ∧
    (∀ bits : UInt32, binary64.datum (Binary64.ofBinary32 bits).bits.toNat =
      binary32.datum bits.toNat) ∧
    ∀ s : String, Utf8.encode s = s.toUTF8.data.toList := by
  refine ⟨fun v e rest => (reads_value limit).eq_ok_iff, fun src rest => ⟨?_, ?_⟩,
    Binary64.datum_ofBinary32, Utf8.encode_eq_toUTF8⟩
  · intro skipped
    obtain ⟨e, ⟨v, form⟩, split⟩ := (reads_skip limit).sound skipped
    exact ⟨v, e, split, form⟩
  · rintro ⟨v, e, rfl, form⟩
    exact (reads_skip limit).complete ⟨v, form⟩ rest

/-- Neither the count nor the integer is in its shortest form; one byte follows. -/
example : readValue 1 [0xdc, 0, 1, 0xd0, 5, 7] = .ok (.array [.int 5]) [7] := by cbv

end HubPack
