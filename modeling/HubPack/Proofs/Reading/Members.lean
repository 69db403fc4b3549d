import HubPack.Proofs.Reading.Message

/-!
The members of an array, one by one. No form of a value is the beginning of another, so that the
bytes of an array fall apart into its members in one way only. The members of a message are the code
of its type, the fields that the type lays out, and what a later version appended.
-/
namespace HubPack.Wire

section Unique

theorem Encodes.unique {v w : Value} {e f x y : Bytes} (hv : Encodes v e) (hw : Encodes w f)
    (same : e ++ x = f ++ y) : v = w ∧ e = f ∧ x = y := by
  have deep : Within (max v.depth w.depth) v e := ⟨hv, Nat.le_max_left _ _⟩
  have deep' : Within (max v.depth w.depth) w f := ⟨hw, Nat.le_max_right _ _⟩
  exact (reads_value _).unique deep deep' same

theorem forms_unique {es fs : List Bytes} {x y : Bytes} (he : ∀ e ∈ es, ∃ v, Encodes v e)
    (hf : ∀ f ∈ fs, ∃ v, Encodes v f) (count : es.length = fs.length)
    (same : es.flatten ++ x = fs.flatten ++ y) : es = fs ∧ x = y := by
  induction es generalizing fs with
  | nil =>
    obtain rfl := List.eq_nil_of_length_eq_zero count.symm
    exact ⟨rfl, same⟩
  | cons e es ih =>
    cases fs with
    | nil => cases count
    | cons f fs =>
      obtain ⟨⟨v, first⟩, later⟩ := List.forall_mem_cons.mp he
      obtain ⟨⟨w, first'⟩, later'⟩ := List.forall_mem_cons.mp hf
      rw [List.flatten_cons, List.flatten_cons, List.append_assoc, List.append_assoc] at same
      obtain ⟨-, rfl, behind⟩ := first.unique first' same
      obtain ⟨rfl, rfl⟩ := ih later later' (Nat.succ.inj count) behind
      exact ⟨rfl, rfl⟩

end Unique

inductive Members (members : List Bytes) : Bytes → Bytes → Prop where
  | mk {head : Bytes} : Length .array members.length head → (∀ e ∈ members, ∃ v, Encodes v e) →
      (tail : Bytes) → Members members tail (head ++ (members.flatten ++ tail))

theorem Members.unique {es fs : List Bytes} {x y payload : Bytes} (he : Members es x payload)
    (hf : Members fs y payload) : es = fs ∧ x = y := by
  obtain ⟨length, forms⟩ := he
  generalize whole : _ ++ (es.flatten ++ x) = payload at hf
  obtain ⟨length', forms'⟩ := hf
  obtain ⟨count, -, same⟩ := reads_arrayHeader.unique length length' whole
  exact forms_unique forms forms' count same

section Message

variable {limit n : Nat} {m : Message}

theorem Sequence.map {α β : Type} {P : α → Bytes → Prop} {Q : β → Bytes → Prop} (f : α → β)
    (h : ∀ a e, P a e → Q (f a) e) {as : List α} {e : Bytes} (s : Sequence P as e) :
    Sequence Q (as.map f) e := by
  induction s with
  | nil => exact .nil
  | cons head _ ih => exact .cons (h _ _ head) ih

theorem ArrayOf.encodes {α : Type} {P : α → Bytes → Prop} (f : α → Value)
    (h : ∀ a e, P a e → Encodes (f a) e) {as : List α} {e : Bytes} (form : ArrayOf P as e) :
    Encodes (.array (as.map f)) e := by
  obtain ⟨length, body⟩ := form
  exact .array (by rwa [List.length_map]) (body.map f h)

theorem HeaderMap.encodes {headers : Headers} {e : Bytes} (form : HeaderMap headers e) :
    ∃ v, Encodes v e := by
  obtain ⟨⟨length, body⟩, -⟩ := form
  refine ⟨.map _, .map (by rwa [List.length_map]) (body.map (fun entry =>
    (.string entry.1, .string entry.2)) ?_)⟩
  rintro _ _ ⟨key, value⟩
  exact .mk (.string key) (.string value)

theorem OrNil.encodes {α : Type} {P : α → Bytes → Prop} {o : Option α} {e : Bytes}
    (h : ∀ a e, P a e → ∃ v, Encodes v e) (form : OrNil P o e) : ∃ v, Encodes v e := by
  cases form with
  | none nil => exact ⟨.nil, .nil nil⟩
  | some form => exact h _ _ form

theorem Slot.encodes {α : Type} {P : Option α → Bytes → Prop} {least : Nat} {o : Option α}
    {parts : List Bytes} (h : ∀ o e, P o e → ∃ v, Encodes v e) (slot : Slot P least n o parts) :
    ∀ e ∈ parts, ∃ v, Encodes v e := by
  cases slot with
  | absent => exact nofun
  | present _ form => exact List.forall_mem_singleton.mpr (h _ _ form)

theorem Carried.encodes {o : Outcome} {parts : List Bytes} (h : Carried limit o parts) :
    ∀ e ∈ parts, ∃ v, Encodes v e := by
  cases h with
  | error text => exact List.forall_mem_singleton.mpr ⟨_, .string text⟩
  | void => exact nofun
  | result within => exact List.forall_mem_singleton.mpr ⟨_, within.1⟩

theorem Fields.encodes {fields : List Bytes} (h : Fields limit n m fields) :
    ∀ e ∈ fields, ∃ v, Encodes v e := by
  have text {s : String} {e : Bytes} (form : Text s e) : ∃ v, Encodes v e := ⟨_, .string form⟩
  have value {v : Value} {e : Bytes} (form : Within limit v e) : ∃ v, Encodes v e := ⟨v, form.1⟩
  have values {vs : List Value} {e : Bytes} (form : ArrayOf (Within limit) vs e) :
      ∃ v, Encodes v e := ⟨_, form.encodes id fun _ _ within => within.1⟩
  have texts {ss : List String} {e : Bytes} (form : ArrayOf Text ss e) : ∃ v, Encodes v e :=
    ⟨_, form.encodes .string fun _ _ => .string⟩
  have ids {o : Option (List String)} {parts : List Bytes}
      (slot : Slot (OrNil (ArrayOf Text)) 6 n o parts) : ∀ e ∈ parts, ∃ v, Encodes v e :=
    slot.encodes fun _ _ form => form.encodes fun _ _ => texts
  cases h with
  | invocation hh hi ht ha hs =>
    have id := hi.encodes fun _ _ => text
    simpa [hh.encodes, id, text ht, values ha] using ids hs
  | streamInvocation hh hi ht ha hs => simpa [hh.encodes, text hi, text ht, values ha] using ids hs
  | streamItem hh hi hv => simpa using ⟨hh.encodes, text hi, value hv⟩
  | completion hh hi hk hc =>
    have kind : ∃ v, Encodes v _ := ⟨_, encodes_ofInteger hk⟩
    simpa [hh.encodes, text hi, kind] using hc.encodes
  | cancelInvocation hh hi => simpa using ⟨hh.encodes, text hi⟩
  | ping => exact nofun
  | close he ha =>
    refine List.forall_mem_cons.mpr ⟨he.encodes fun _ _ => text, ha.encodes ?_⟩
    rintro _ _ ⟨flag⟩
    exact ⟨_, .bool flag⟩

/-- The members of a message: its code, its fields, and what a later version appended. -/
structure Laid (limit : Nat) (m : Message) (code : Bytes) (fields extra : List Bytes) : Prop where
  code : Integer (typeCode m) code
  fields : Fields limit (1 + fields.length + extra.length) m fields
  appended : Appended limit m extra

theorem Laid.encodes {code : Bytes} {fields extra : List Bytes}
    (h : Laid limit m code fields extra) : ∀ e ∈ code :: fields ++ extra, ∃ v, Encodes v e := by
  have later : ∀ e ∈ extra, ∃ v, Encodes v e := by
    intro e mem
    obtain ⟨v, form, -⟩ := h.appended.1 e mem
    exact ⟨v, form⟩
  refine List.forall_mem_append.mpr ⟨List.forall_mem_cons.mpr ⟨?_, h.fields.encodes⟩, later⟩
  exact ⟨_, encodes_ofInteger h.code⟩

theorem payload_iff {payload : Bytes} : Payload limit m payload ↔ ∃ code fields extra tail,
    Laid limit m code fields extra ∧ Members (code :: fields ++ extra) tail payload := by
  have count (code : Bytes) (fields extra : List Bytes) :
      (code :: fields ++ extra).length = 1 + fields.length + extra.length := by
    simp only [List.length_append, List.length_cons]
    omega
  constructor
  · rintro ⟨@⟨n, head, code, fields, extra, length, rfl, hk, form, appended⟩, tail⟩
    have laid : Laid limit m code fields extra := ⟨hk, form, appended⟩
    refine ⟨code, fields, extra, tail, laid, ?_⟩
    rw [← count code] at length
    simpa using Members.mk length laid.encodes tail
  · rintro ⟨code, fields, extra, tail, laid, ⟨length, -⟩⟩
    rw [count] at length
    simpa using Payload.mk (.mk length rfl laid.code laid.fields laid.appended) tail

end Message

end HubPack.Wire
