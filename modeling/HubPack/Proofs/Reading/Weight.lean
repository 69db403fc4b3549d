import HubPack.Proofs.Reading.Protocol
import HubPack.Proofs.TextMap
import HubPack.Proofs.Value.Weight

namespace HubPack

/-- One for a text, and one for each of its bytes. -/
def textWeight (s : String) : Nat := 1 + (Utf8.encode s).length

theorem textWeight_pos (s : String) : 0 < textWeight s := by
  rw [textWeight]
  omega

namespace Message

def texts : Message → List String
  | .invocation m => headerTexts m.headers ++ m.id.toList ++ [m.target] ++ m.streamIds.getD []
  | .streamInvocation m => headerTexts m.headers ++ [m.id, m.target] ++ m.streamIds.getD []
  | .streamItem m => headerTexts m.headers ++ [m.id]
  | .completion m => headerTexts m.headers ++ [m.id] ++ m.outcome.error?.toList
  | .cancelInvocation m => headerTexts m.headers ++ [m.id]
  | .ping => []
  | .close m => m.error.toList
where
  headerTexts (headers : Headers) : List String := headers.toList.flatMap fun (k, v) => [k, v]

def entryWeight (entry : String × String) : Nat := textWeight entry.1 + textWeight entry.2

theorem sum_headerTexts (headers : Headers) :
    ((texts.headerTexts headers).map textWeight).sum = (headers.toList.map entryWeight).sum := by
  rw [texts.headerTexts]
  induction headers.toList with
  | nil => rfl
  | cons entry rest ih => simp [entryWeight, ih, Nat.add_assoc]

def weight (m : Message) : Nat := (m.values.map Value.weight).sum + (m.texts.map textWeight).sum

theorem count_le_weight (m : Message) : m.values.length + m.texts.length ≤ m.weight :=
  Nat.add_le_add (Value.length_le_sum Value.weight_pos _) (Value.length_le_sum textWeight_pos _)

theorem weight_le_of_mem {m : Message} {v : Value} (mem : v ∈ m.values) : v.weight ≤ m.weight :=
  Nat.le_trans (List.le_sum_of_mem (List.mem_map_of_mem mem)) (Nat.le_add_right _ _)

theorem weight_bound (binder : Binder) (m : Message) : (m.bound binder).weight = m.weight := by
  have values : (m.bound binder).values.map Value.weight = m.values.map Value.weight := by
    rw [values_bound]
    exact List.ext_getElem (by simp) (by simp)
  have texts : (m.bound binder).texts = m.texts := by
    cases m with
    | completion m =>
      obtain ⟨headers, id, outcome⟩ := m
      cases outcome <;> rfl
    | _ => rfl
  rw [weight, weight, values, texts]

end Message

namespace Wire

theorem Length.pos {forms : LengthForms} {n : Nat} {e : Bytes} (h : Length forms n e) :
    0 < e.length := by
  cases h <;> simp

theorem Integer.pos {i : Int} {e : Bytes} (h : Integer i e) : 0 < e.length := by
  cases h <;> simp

theorem Text.weight_le {s : String} {e : Bytes} (h : Text s e) : textWeight s ≤ e.length := by
  obtain ⟨length⟩ := h
  have first := length.pos
  rw [textWeight, List.length_append]
  omega

theorem Text.pos {s : String} {e : Bytes} (h : Text s e) : 0 < e.length :=
  Nat.lt_of_lt_of_le (textWeight_pos s) h.weight_le

theorem Raw.pos {bs e : Bytes} (h : Raw bs e) : 0 < e.length := by
  obtain ⟨length⟩ := h
  have first := length.pos
  rw [List.length_append]
  omega

theorem Nil.pos {e : Bytes} (h : Nil e) : 0 < e.length := by
  cases h
  exact Nat.one_pos

theorem Flag.pos {b : Bool} {e : Bytes} (h : Flag b e) : 0 < e.length := by
  cases h <;> exact Nat.one_pos

theorem OrNil.pos {α : Type} {P : α → Bytes → Prop} (filled : ∀ a e, P a e → 0 < e.length)
    {o : Option α} {e : Bytes} (h : OrNil P o e) : 0 < e.length := by
  cases h with
  | none form => exact form.pos
  | some form => exact filled _ _ form

section Members

variable {α : Type} {P : α → Bytes → Prop} {w : α → Nat} {as : List α} {e : Bytes}

theorem Sequence.sum_le (s : Sequence P as e) (h : ∀ a ∈ as, ∀ e, P a e → w a ≤ e.length) :
    (as.map w).sum ≤ e.length := by
  induction s with
  | nil => simp
  | cons form _ ih =>
    obtain ⟨first, rest⟩ := List.forall_mem_cons.mp h
    have head := first _ form
    have tail := ih rest
    simp only [List.map_cons, List.sum_cons, List.length_append]
    omega

theorem ArrayOf.sum_lt (form : ArrayOf P as e) (h : ∀ a e, P a e → w a ≤ e.length) :
    (as.map w).sum < e.length := by
  obtain ⟨length, body⟩ := form
  have first := length.pos
  have rest := body.sum_le fun a _ => h a
  rw [List.length_append]
  omega

end Members

theorem Encodes.weight_le {v : Value} {e : Bytes} (h : Encodes v e) : v.weight ≤ e.length := by
  -- the first byte of its length is the one for the container itself
  induction v using Value.nestedInduct generalizing e with
  | scalar v flat =>
    cases h with
    | nil form => cases form; simp [Value.weight]
    | bool form => cases form <;> simp [Value.weight]
    | int form | uint _ form => exact form.pos
    | single | double => simp [Value.weight]
    | string form => exact form.weight_le
    | bytes form =>
      obtain ⟨length⟩ := form
      have first := length.pos
      rw [Value.weight, List.length_append]
      omega
    | ext length =>
      simp only [Value.weight, List.length_append, List.length_cons]
      omega
    | array | map => cases flat
  | array items ih =>
    cases h with
    | array length members =>
      have first := length.pos
      have rest := members.sum_le ih
      rw [Value.weight_array, List.length_append]
      omega
  | map entries ih =>
    cases h with
    | map length members =>
      have each : ∀ entry ∈ entries, ∀ e, Pair Encodes Encodes entry e →
          Value.entryWeight entry ≤ e.length := by
        rintro _ mem _ ⟨key, value⟩
        rw [List.length_append]
        exact Nat.add_le_add ((ih _ mem).1 key) ((ih _ mem).2 value)
      have first := length.pos
      have rest := members.sum_le each
      rw [Value.weight_map, List.length_append]
      omega

theorem Within.pos {limit : Nat} {v : Value} {e : Bytes} (h : Within limit v e) : 0 < e.length :=
  Nat.lt_of_lt_of_le v.weight_pos h.1.weight_le

theorem HeaderMap.sum_lt {headers : Headers} {e : Bytes} (form : HeaderMap headers e) :
    ((Message.texts.headerTexts headers).map textWeight).sum < e.length := by
  cases form with
  | @mk entries _ map last =>
    obtain ⟨length, members⟩ := map
    obtain rfl := TextMap.eq_ofList_iff.mpr last
    have each : ∀ entry ∈ entries, ∀ e, Pair Text Text entry e →
        Message.entryWeight entry ≤ e.length := by
      rintro _ - _ ⟨key, value⟩
      rw [List.length_append]
      exact Nat.add_le_add key.weight_le value.weight_le
    have first := length.pos
    have sent := members.sum_le each
    -- of two entries with one name both are sent, and one is kept
    have kept := TextMap.sum_ofList_le Message.entryWeight entries
    rw [Message.sum_headerTexts, List.length_append]
    omega

section Slots

variable {n : Nat} {e : Bytes} {parts : List Bytes}

theorem OrNil.text_le {o : Option String} (form : OrNil Text o e) :
    (o.toList.map textWeight).sum ≤ e.length := by
  cases form with
  | none => simp
  | some text => simpa using text.weight_le

theorem Slot.ids_le {ids : Option (List String)}
    (slot : Slot (OrNil (ArrayOf Text)) 6 n ids parts) :
    ((ids.getD []).map textWeight).sum ≤ parts.flatten.length := by
  cases slot with
  | absent => simp
  | present _ form =>
    cases form with
    | none => simp
    | some list => simpa using Nat.le_of_lt (list.sum_lt fun _ _ => Text.weight_le)

theorem Carried.sum_le {limit : Nat} {o : Outcome} (h : Carried limit o parts) :
    (o.result?.toList.map Value.weight).sum + (o.error?.toList.map textWeight).sum ≤
      parts.flatten.length := by
  cases h with
  | error text => simpa [Outcome.result?, Outcome.error?] using text.weight_le
  | void => simp [Outcome.result?, Outcome.error?]
  | result within => simpa [Outcome.result?, Outcome.error?] using within.1.weight_le

end Slots

theorem Fields.weight_le {limit n : Nat} {m : Message} {fields : List Bytes}
    (h : Fields limit n m fields) : m.weight ≤ fields.flatten.length := by
  have value (v : Value) (e : Bytes) (within : Within limit v e) : v.weight ≤ e.length :=
    within.1.weight_le
  cases h with
  | invocation hh hi ht ha hs =>
    have headers := hh.sum_lt
    have id := hi.text_le
    have target := ht.weight_le
    have arguments := ha.sum_lt value
    have streamIds := hs.ids_le
    simp [Message.weight, Message.texts, Message.values, -List.length_flatten]
    omega
  | streamInvocation hh hi ht ha hs =>
    have headers := hh.sum_lt
    have id := hi.weight_le
    have target := ht.weight_le
    have arguments := ha.sum_lt value
    have streamIds := hs.ids_le
    simp [Message.weight, Message.texts, Message.values, -List.length_flatten]
    omega
  | streamItem hh hi hv =>
    have headers := hh.sum_lt
    have id := hi.weight_le
    have item := hv.1.weight_le
    simp [Message.weight, Message.texts, Message.values, -List.length_flatten]
    omega
  | completion hh hi hk hc =>
    have headers := hh.sum_lt
    have id := hi.weight_le
    have outcome := hc.sum_le
    simp [Message.weight, Message.texts, Message.values, -List.length_flatten]
    omega
  | cancelInvocation hh hi =>
    have headers := hh.sum_lt
    have id := hi.weight_le
    simp [Message.weight, Message.texts, Message.values, -List.length_flatten]
    omega
  | ping => simp [Message.weight, Message.texts, Message.values]
  | close he ha =>
    have error := he.text_le
    simp [Message.weight, Message.texts, Message.values, -List.length_flatten]
    omega

theorem Payload.weight_lt {limit : Nat} {m : Message} {payload : Bytes}
    (h : Payload limit m payload) : m.weight < payload.length := by
  obtain ⟨⟨length, -, -, form, -⟩, tail⟩ := h
  have first := length.pos
  have fields := form.weight_le
  simp only [List.length_append]
  omega

end Wire

open Wire

namespace Protocol

theorem payload_of_first {p : Protocol} {binder : Binder} {src : Bytes} {m : Message} {used : Nat}
    (h : p.first binder src = .ok (some m, used)) : ∃ span raw,
      p.framing.locate src = .ok span ∧ span.stop = used ∧ m = raw.bound binder ∧
        Payload p.maxNestingDepth raw (span.of src) := by
  obtain ⟨payload, frame, rest, framed, rfl, rfl, -⟩ := exists_frame_of_first h
  obtain ⟨raw, form, bound, -⟩ := (first_eq_some_iff framed rest).mp h
  obtain ⟨span, located, stop, same⟩ := Framing.locate_complete framed rest
  exact ⟨span, raw, located, stop, bound, by rwa [same]⟩

/-- What is read takes no more than the bytes that it is read from: a value no more than those that
its read consumed, a message less than its payload. So nothing in them has as many elements, and a
message has fewer values and texts than that, whatever counts were announced. -/
theorem decoding_never_amplifies :
    (∀ limit src v rest, readValue limit src = .ok v rest → ∃ consumed, src = consumed ++ rest ∧
      1 ≤ consumed.length ∧ v.weight ≤ consumed.length ∧
        ∀ x, v.HasPart x → x.count < consumed.length) ∧
    ∀ (p : Protocol) binder src m used, p.first binder src = .ok (some m, used) → ∃ span,
      p.framing.locate src = .ok span ∧ span.stop = used ∧ m.weight < (span.of src).length ∧
        m.values.length + m.texts.length < (span.of src).length ∧
        ∀ v ∈ m.values, ∀ x, v.HasPart x → x.count < (span.of src).length := by
  constructor
  · intro limit src v rest read
    obtain ⟨e, within, rfl⟩ := (reads_value limit).sound read
    have bound := within.1.weight_le
    have counted (x : Value) (part : v.HasPart x) : x.count < e.length :=
      Nat.lt_of_lt_of_le (Value.count_lt_of_part part) bound
    exact ⟨e, rfl, Nat.le_trans v.weight_pos bound, bound, counted⟩
  · intro p binder src m used read
    obtain ⟨span, raw, located, stop, rfl, form⟩ := payload_of_first read
    have bound := form.weight_lt
    rw [← raw.weight_bound binder] at bound
    have counted : ∀ v ∈ (raw.bound binder).values, ∀ x, v.HasPart x →
        x.count < (span.of src).length := by
      intro v mem x part
      have inner := Value.count_lt_of_part part
      have outer := Message.weight_le_of_mem mem
      omega
    have few := Nat.lt_of_le_of_lt (Message.count_le_weight _) bound
    exact ⟨span, located, stop, bound, few, counted⟩

/-- A byte string of two bytes in an array that holds it twice; then an invocation with a header
that is sent twice. -/
theorem decoding_never_amplifies_samples :
    (∃ consumed : Bytes, [0x92, 0xc4, 2, 1, 1, 0xc4, 2, 1, 1, 7] = consumed ++ [7] ∧
      (Value.array [.bytes [1, 1], .bytes [1, 1]]).weight ≤ consumed.length) ∧
    ∃ span, (ofConfig ⟨100, 1⟩).framing.locate
        [18, 0x95, 1, 0x82, 0xa1, 97, 0xa1, 98, 0xa1, 97, 0xa1, 99, 0xc0, 0xa1, 116, 0x91, 0xa2,
          120, 121] = .ok span ∧ span.stop = 19 ∧
      (Message.invocation
        { headers := .ofList [("a", "c")], target := "t", arguments := [.bytes [120, 121]] }).weight
        < (span.of [18, 0x95, 1, 0x82, 0xa1, 97, 0xa1, 98, 0xa1, 97, 0xa1, 99, 0xc0, 0xa1, 116,
            0x91, 0xa2, 120, 121]).length := by
  have value : readValue 1 [0x92, 0xc4, 2, 1, 1, 0xc4, 2, 1, 1, 7] =
      .ok (.array [.bytes [1, 1], .bytes [1, 1]]) [7] := by cbv
  have read : (ofConfig ⟨100, 1⟩).first ⟨fun _ => [.bytes], fun _ => none, fun _ => none⟩
      [18, 0x95, 1, 0x82, 0xa1, 97, 0xa1, 98, 0xa1, 97, 0xa1, 99, 0xc0, 0xa1, 116, 0x91, 0xa2,
        120, 121] = .ok (some (.invocation
          { headers := .ofList [("a", "c")], target := "t", arguments := [.bytes [120, 121]] }),
        19) := by
    cbv
  obtain ⟨consumed, split, -, bound, -⟩ := decoding_never_amplifies.1 _ _ _ _ value
  obtain ⟨span, located, stop, less, -⟩ := decoding_never_amplifies.2 _ _ _ _ _ read
  exact ⟨⟨consumed, split, bound⟩, span, located, stop, less⟩

end Protocol

end HubPack
