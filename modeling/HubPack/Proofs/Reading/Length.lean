import HubPack.Proofs.Bytes
import HubPack.Proofs.Reading.Basic

/-!
The primitive reads, and the lengths that stand at the head of text, bytes and containers. The
table of markers is compared with the wire forms once, byte by byte; every read of a length takes
its form from there.
-/
namespace HubPack
open Wire

theorem readMarker_cons (m : Marker) (bs : Bytes) : readMarker (m.toByte :: bs) = .ok m bs := by
  change EStateM.Result.ok (Marker.ofByte m.toByte) bs = _
  rw [Marker.ofByte_toByte]

theorem peekMarker_cons (m : Marker) (bs : Bytes) :
    peekMarker (m.toByte :: bs) = .ok m (m.toByte :: bs) := by
  change EStateM.Result.ok (Marker.ofByte m.toByte) _ = _
  rw [Marker.ofByte_toByte]

theorem reads_marker : Reads readMarker fun m e => e = [m.toByte] where
  complete {m e} h rest := by
    subst h
    exact readMarker_cons m rest
  sound {bs rest m} h := by
    cases bs with
    | nil => cases h
    | cons b bs =>
      cases h
      exact ⟨[b], by rw [Marker.toByte_ofByte], rfl⟩

theorem readUnsigned_eq (width : Nat) (bs : Bytes) :
    readUnsigned width bs = if bs.length < width then .error .insufficientData []
      else .ok (ofBigEndian (bs.take width)) (bs.drop width) := by
  unfold readUnsigned
  simp only [bind, EStateM.bind, get, getThe, MonadStateOf.get, EStateM.get, List.splitAt_eq,
    set, EStateM.set, List.length_take]
  by_cases short : bs.length < width
  · rw [if_pos (by omega), if_pos short, List.drop_eq_nil_of_le (Nat.le_of_lt short)]
    rfl
  · rw [if_neg (by omega), if_neg short]
    rfl

theorem takeBytes_eq (n : Nat) (bs : Bytes) :
    takeBytes n bs = if bs.length < n then .error .insufficientData bs
      else .ok (bs.take n) (bs.drop n) := by
  unfold takeBytes
  simp only [bind, EStateM.bind, get, getThe, MonadStateOf.get, EStateM.get, List.splitAt_eq,
    List.length_take]
  by_cases short : bs.length < n
  · rw [if_pos (by omega), if_pos short]
    rfl
  · rw [if_neg (by omega), if_neg short]
    rfl

theorem reads_unsigned (width : Nat) :
    Reads (readUnsigned width) fun n e => n < 256 ^ width ∧ e = bigEndian width n where
  complete {n e} h rest := by
    obtain ⟨bound, rfl⟩ := h
    rw [readUnsigned_eq, if_neg (by simp), List.take_left' (length_bigEndian width n),
      List.drop_left' (length_bigEndian width n), ofBigEndian_bigEndian bound]
  sound {bs rest n} h := by
    rw [readUnsigned_eq] at h
    split at h
    · cases h
    · rename_i enough
      cases h
      have length : (bs.take width).length = width := by
        rw [List.length_take]
        omega
      have bound := ofBigEndian_lt (bs.take width)
      have written := bigEndian_ofBigEndian (bs.take width)
      rw [length] at bound written
      exact ⟨bs.take width, ⟨bound, written.symm⟩, (List.take_append_drop width bs).symm⟩

theorem reads_bytes (n : Nat) : Reads (takeBytes n) fun body e => body.length = n ∧ e = body where
  complete {body e} h rest := by
    obtain ⟨length, rfl⟩ := h
    rw [takeBytes_eq, if_neg (by simp [length]), List.take_left' length, List.drop_left' length]
  sound {bs rest body} h := by
    rw [takeBytes_eq] at h
    split at h
    · cases h
    · rename_i enough
      cases h
      refine ⟨bs.take n, ⟨?_, rfl⟩, (List.take_append_drop n bs).symm⟩
      rw [List.length_take]
      omega

inductive Extent.Measures : Extent → Nat → Bytes → Prop where
  | here (n : Nat) : Measures (.here n) n []
  | next {n width : Nat} : n < 256 ^ width → Measures (.next width) n (bigEndian width n)

theorem reads_extent (x : Extent) : Reads (readExtent x) x.Measures := by
  cases x with
  | here n =>
    refine (Reads.done n).congr fun m e => ⟨?_, ?_⟩
    · rintro ⟨rfl, rfl⟩
      exact .here m
    · intro h
      cases h
      exact ⟨rfl, rfl⟩
  | next width =>
    refine (reads_unsigned width).congr fun m e => ⟨?_, ?_⟩
    · rintro ⟨bound, rfl⟩
      exact .next bound
    · intro h
      cases h with
      | next bound => exact ⟨bound, rfl⟩

def Wire.LengthForms.Lists (forms : LengthForms) (first : Nat) : Extent → Prop
  | .here n => (n, first) ∈ forms.short
  | .next width => (first, width) ∈ forms.wide

/-- The markers of a kind of length are the first bytes of its forms. -/
structure Announces (form : Extent → Form) (forms : LengthForms) : Prop where
  short : ∀ p ∈ forms.short, (Marker.ofByte (UInt8.ofNat p.2)).form = form (.here p.1)
  wide : ∀ p ∈ forms.wide, (Marker.ofByte (UInt8.ofNat p.1)).form = form (.next p.2)
  listed : ∀ (b : Fin 256) (x : Extent), (Marker.ofByte (UInt8.ofNat b)).form = form x →
    forms.Lists b x

def Form.Listed (first : Nat) : Form → Prop
  | .string x => LengthForms.string.Lists first x
  | .bytes x => LengthForms.bytes.Lists first x
  | .array x => LengthForms.array.Lists first x
  | .map x => LengthForms.map.Lists first x
  | .ext x => LengthForms.ext.Lists first x
  | _ => True

instance (forms : LengthForms) (first : Nat) (x : Extent) : Decidable (forms.Lists first x) :=
  match x with
  | .here n => inferInstanceAs (Decidable ((n, first) ∈ forms.short))
  | .next width => inferInstanceAs (Decidable ((first, width) ∈ forms.wide))

instance (first : Nat) (form : Form) : Decidable (form.Listed first) :=
  match form with
  | .string x => inferInstanceAs (Decidable (LengthForms.string.Lists first x))
  | .bytes x => inferInstanceAs (Decidable (LengthForms.bytes.Lists first x))
  | .array x => inferInstanceAs (Decidable (LengthForms.array.Lists first x))
  | .map x => inferInstanceAs (Decidable (LengthForms.map.Lists first x))
  | .ext x => inferInstanceAs (Decidable (LengthForms.ext.Lists first x))
  | .nil | .bool _ | .integer _ | .unsigned _ | .signed _ | .single | .double | .reserved =>
    .isTrue trivial

theorem listed (b : Fin 256) : (Marker.ofByte (UInt8.ofNat b)).form.Listed b := by
  revert b
  decide +kernel

theorem announces_string : Announces .string .string :=
  ⟨by decide, by decide, fun b x h => show (Form.string x).Listed b from h ▸ listed b⟩

theorem announces_bytes : Announces .bytes .bytes :=
  ⟨by decide, by decide, fun b x h => show (Form.bytes x).Listed b from h ▸ listed b⟩

theorem announces_array : Announces .array .array :=
  ⟨by decide, by decide, fun b x h => show (Form.array x).Listed b from h ▸ listed b⟩

theorem announces_map : Announces .map .map :=
  ⟨by decide, by decide, fun b x h => show (Form.map x).Listed b from h ▸ listed b⟩

theorem announces_ext : Announces .ext .ext :=
  ⟨by decide, by decide, fun b x h => show (Form.ext x).Listed b from h ▸ listed b⟩

theorem Announces.length_iff {form : Extent → Form} {forms : LengthForms}
    (a : Announces form forms) {n : Nat} {e : Bytes} : Length forms n e ↔
      ∃ (m : Marker) (x : Extent) (tail : Bytes),
        m.form = form x ∧ x.Measures n tail ∧ e = m.toByte :: tail := by
  constructor
  · intro h
    cases h with
    | short mem =>
      exact ⟨_, _, [], a.short _ mem, .here n, by rw [Marker.toByte_ofByte]⟩
    | wide mem bound =>
      exact ⟨_, _, _, a.wide _ mem, .next bound, by rw [Marker.toByte_ofByte]⟩
  · rintro ⟨m, x, tail, hm, hx, rfl⟩
    have hb := a.listed ⟨m.toByte.toNat, m.toByte.toNat_lt⟩ x
    simp only [UInt8.ofNat_toNat, Marker.ofByte_toByte] at hb
    have same : m.toByte = UInt8.ofNat m.toByte.toNat := UInt8.ofNat_toNat.symm
    rw [same]
    cases hx with
    | here => exact .short (hb hm)
    | next bound => exact .wide (hb hm) bound

theorem Reads.announced {α : Type} {form : Extent → Form} {forms : LengthForms}
    (a : Announces form forms) {k : Marker → Reader α} {body : Nat → Reader α}
    {R : Nat → α → Bytes → Prop} (hbody : ∀ n, Reads (body n) (R n))
    (hit : ∀ m x, m.form = form x → k m = readExtent x >>= body)
    (miss : ∀ m, (∀ x, m.form ≠ form x) → Reads (k m) fun _ _ => False) :
    Reads (readMarker >>= k) fun b e =>
      ∃ n e₁ e₂, Length forms n e₁ ∧ R n b e₂ ∧ e = e₁ ++ e₂ where
  complete {b e} h rest := by
    obtain ⟨n, _, e₂, length, hR, rfl⟩ := h
    obtain ⟨m, x, tail, hm, hx, rfl⟩ := a.length_iff.mp length
    rw [List.cons_append, List.cons_append, bind_of_ok (readMarker_cons m _), hit m x hm,
      List.append_assoc, bind_of_ok ((reads_extent x).complete hx _), (hbody n).complete hR]
  sound {bs rest b} h := by
    obtain ⟨m, mid, hm, hk⟩ := bind_eq_ok_iff.mp h
    obtain ⟨_, rfl, rfl⟩ := reads_marker.sound hm
    by_cases found : ∃ x, m.form = form x
    · obtain ⟨x, hx⟩ := found
      rw [hit m x hx] at hk
      obtain ⟨_, ⟨n, e₁, e₂, measured, hR, rfl⟩, rfl⟩ := ((reads_extent x).bind hbody).sound hk
      exact ⟨m.toByte :: e₁ ++ e₂, ⟨n, _, e₂, a.length_iff.mpr ⟨m, x, e₁, hx, measured, rfl⟩,
        hR, rfl⟩, rfl⟩
    · obtain ⟨_, impossible, _⟩ := (miss m fun x hx => found ⟨x, hx⟩).sound hk
      exact impossible.elim

theorem Reads.header {form : Extent → Form} {forms : LengthForms} (a : Announces form forms)
    {k : Marker → Reader Nat} (hit : ∀ m x, m.form = form x → k m = readExtent x)
    (miss : ∀ m, (∀ x, m.form ≠ form x) → Reads (k m) fun _ _ => False) :
    Reads (readMarker >>= k) (Length forms) := by
  have start := Reads.announced a Reads.done
    (fun m x hm => (hit m x hm).trans (bind_pure (readExtent x)).symm) miss
  refine start.congr fun n e => ⟨?_, fun h => ⟨n, e, [], h, ⟨rfl, rfl⟩, by simp⟩⟩
  rintro ⟨_, _, _, h, ⟨rfl, rfl⟩, rfl⟩
  rwa [List.append_nil]

theorem reads_arrayHeader : Reads readArrayHeader (Length .array) := by
  refine .header announces_array (fun m x h => by rw [h]) fun m h => ?_
  split
  · rename_i x hx
    exact absurd hx (h x)
  · exact .malformed _

theorem reads_mapHeader : Reads readMapHeader (Length .map) := by
  refine .header announces_map (fun m x h => by rw [h]) fun m h => ?_
  split
  · rename_i x hx
    exact absurd hx (h x)
  · exact .malformed _

end HubPack
