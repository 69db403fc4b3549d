import HubPack.Proofs.Reading.Members
import HubPack.Proofs.Reading.Protocol

namespace HubPack

namespace Wire

/-- What the messages of a type have in common: the code of the type, the least count of members,
and their count with all the optional ones. -/
structure Layout where
  code : Nat
  least : Nat
  most : Nat

def layout : MessageType → Layout
  | .invocation => ⟨1, 5, 6⟩
  | .streamItem => ⟨2, 4, 4⟩
  | .completion => ⟨3, 4, 5⟩
  | .streamInvocation => ⟨4, 5, 6⟩
  | .cancelInvocation => ⟨5, 3, 3⟩
  | .ping => ⟨6, 1, 1⟩
  | .close => ⟨7, 2, 3⟩

theorem layout_code (type : MessageType) : (layout type).code = type.code := by
  cases type <;> rfl

theorem layout_least (type : MessageType) : (layout type).least = type.minFields := by
  cases type <;> rfl

inductive Begins (n : Nat) (type : MessageType) (body : Bytes) : Bytes → Prop where
  | mk {head code : Bytes} : Length .array n head → Integer (layout type).code code →
      Begins n type body (head ++ (code ++ body))

inductive Concludes (n : Nat) (kind : Int) : Bytes → Prop where
  | mk {headers : Headers} {id : String} {h i k rest payload : Bytes} : HeaderMap headers h →
      Text id i → Integer kind k → kind < 2 ^ 63 →
      Begins n .completion (h ++ (i ++ (k ++ rest))) payload → Concludes n kind payload

end Wire

open Wire

section Refused

variable {limit n : Nat} {binder : Binder}

theorem readMessage_empty {head : Bytes} (length : Length .array 0 head) (rest : Bytes) :
    readMessage limit binder (head ++ rest) = .error (.protocolViolation .emptyMessage) rest := by
  rw [readMessage, bind_of_ok (reads_arrayHeader.complete length rest)]
  rfl

theorem readMessage_begins {type : MessageType} {body payload : Bytes}
    (h : Begins n type body payload) (filled : 0 < n) :
    readMessage limit binder payload = (some <$> readKnown limit binder n type) body := by
  obtain ⟨length, code⟩ := h
  rw [layout_code] at code
  have back : (Int64.ofInt type.code).toInt = type.code := by
    cases type <;> rfl
  have known : MessageType.ofCode? type.code = some type := MessageType.ofCode?_eq_some_iff.mpr rfl
  rw [readMessage, bind_of_ok (reads_arrayHeader.complete length _), if_neg (by omega),
    bind_of_ok (reads_int.complete (back.symm ▸ code) body)]
  simp only [back, known]

theorem readMessage_few {type : MessageType} {body payload : Bytes}
    (h : Begins n type body payload) (filled : 0 < n) (few : n < (layout type).least) :
    readMessage limit binder payload =
      .error (.protocolViolation (.fewFields type n (layout type).least)) body := by
  rw [layout_least] at few ⊢
  rw [readMessage_begins h filled, readKnown, if_pos few]
  rfl

def readEnding (limit : Nat) (binder : Binder) (fields : Nat) (headers : Headers) (id : String)
    (code : Int) : Reader Completion :=
  match ResultKind.ofCode? code with
  | none => violation (.resultKind code)
  | some kind =>
    if fields < kind.fields then
      violation (.resultFields code fields kind.fields)
    else if kind.fields < fields then
      malformed (.extraFields code (fields - kind.fields))
    else do
      let outcome ← readOutcome limit binder id kind
      pure { headers, id, outcome }

theorem readCompletion_eq_ending : readCompletion limit binder n =
    readHeaders >>= fun headers => readString >>= fun id => readInt >>= fun code =>
      readEnding limit binder n headers id code.toInt := rfl

theorem readEnding_unknown {headers : Headers} {id : String} {code : Int} {bs : Bytes}
    (unknown : ResultKind.ofCode? code = none) : readEnding limit binder n headers id code bs =
      .error (.protocolViolation (.resultKind code)) bs := by
  rw [readEnding, unknown]
  rfl

theorem readEnding_few {headers : Headers} {id : String} {kind : ResultKind} {bs : Bytes}
    (few : n < kind.fields) : readEnding limit binder n headers id kind.code bs =
      .error (.protocolViolation (.resultFields kind.code n kind.fields)) bs := by
  rw [readEnding, ResultKind.ofCode?_eq_some_iff.mpr rfl]
  simp only [if_pos few]
  rfl

theorem readEnding_many {headers : Headers} {id : String} {kind : ResultKind} {bs : Bytes}
    (many : kind.fields < n) : readEnding limit binder n headers id kind.code bs =
      .error (.malformedValue (.extraFields kind.code (n - kind.fields))) bs := by
  rw [readEnding, ResultKind.ofCode?_eq_some_iff.mpr rfl]
  simp only [if_neg (Nat.lt_asymm many), if_pos many]
  rfl

theorem readMessage_concludes {kind : Int} {payload : Bytes} (h : Concludes n kind payload)
    (enough : 4 ≤ n) {e : WireError} (refused : ∀ headers id bs,
      readEnding limit binder n headers id kind bs = .error e bs) :
    ∃ left, readMessage limit binder payload = .error e left := by
  obtain @⟨headers, id, h, i, k, rest, _, hh, hi, hk, small, begins⟩ := h
  have back : (Int64.ofInt kind).toInt = kind :=
    Int64.toInt_ofInt_of_le (integer_bounds hk).1 small
  have completion : readCompletion limit binder n (h ++ (i ++ (k ++ rest))) = .error e rest := by
    rw [readCompletion_eq_ending, bind_of_ok (reads_headers.complete hh _),
      bind_of_ok (reads_text.complete hi _), bind_of_ok (reads_int.complete (back.symm ▸ hk) rest),
      back]
    exact refused headers id rest
  have least : ¬n < MessageType.completion.minFields := Nat.not_lt.mpr enough
  refine ⟨rest, ?_⟩
  rw [readMessage_begins begins (by omega), readKnown, if_neg least, readBody, ← bind_pure_comp]
  exact bind_of_error (bind_of_error (bind_of_error completion))

end Refused

@[simp] theorem Message.type_bound (binder : Binder) (m : Message) :
    (m.bound binder).type = m.type := by
  cases m <;> rfl

namespace Wire

section Grown

variable {limit n : Nat} {m : Message}

theorem Slot.of_full {α : Type} {P : Option α → Bytes → Prop} {least n' : Nat} {o : Option α}
    {parts : List Bytes} (h : Slot P least n o parts) (full : least ≤ n) (full' : least ≤ n') :
    Slot P least n' o parts := by
  cases h with
  | absent few => omega
  | present _ form => exact .present full' form

theorem Fields.of_full {n' : Nat} {fields : List Bytes} (h : Fields limit n m fields)
    (full : (layout m.type).most ≤ n) (full' : (layout m.type).most ≤ n') :
    Fields limit n' m fields := by
  cases h with
  | invocation hh hi ht ha hs => exact .invocation hh hi ht ha (hs.of_full full full')
  | streamInvocation hh hi ht ha hs => exact .streamInvocation hh hi ht ha (hs.of_full full full')
  | streamItem hh hi hv => exact .streamItem hh hi hv
  | completion hh hi hk hc => exact .completion hh hi hk hc
  | cancelInvocation hh hi => exact .cancelInvocation hh hi
  | ping => exact .ping
  | close he ha => exact .close he (ha.of_full full full')

theorem Fields.length_of_full {fields : List Bytes} (h : Fields limit n m fields)
    (other : m.type ≠ .completion) (full : (layout m.type).most ≤ n) :
    1 + fields.length = (layout m.type).most := by
  cases h with
  | invocation _ _ _ _ hs | streamInvocation _ _ _ _ hs =>
    have length := (slot_length hs).trans (if_neg (Nat.not_lt.mpr full))
    rw [List.length_append, length]
    rfl
  | close _ ha =>
    have length := (slot_length ha).trans (if_neg (Nat.not_lt.mpr full))
    rw [List.length_cons, length]
    rfl
  | completion => exact absurd rfl other
  | _ => rfl

theorem Payload.grown {known before added after : List Bytes} {tail tail' payload payload' : Bytes}
    (h : Payload limit m payload) (other : m.type ≠ .completion)
    (whole : Members (known ++ (before ++ after)) tail payload)
    (full : known.length = (layout m.type).most) (more : ∀ e ∈ added, ∃ v, Within limit v e)
    (grown : Members (known ++ (before ++ (added ++ after))) tail' payload') :
    Payload limit m payload' := by
  obtain ⟨code, fields, extra, _, ⟨hk, form, each, -⟩, members⟩ := payload_iff.mp h
  obtain ⟨same, -⟩ := members.unique whole
  have count := congrArg List.length same
  simp only [List.length_append, List.length_cons] at count
  have length := form.length_of_full other (by omega)
  obtain ⟨rfl, rfl⟩ := List.append_inj same (by rw [List.length_cons]; omega)
  obtain ⟨first, last⟩ := List.forall_mem_append.mp each
  refine payload_iff.mpr ⟨code, fields, before ++ (added ++ after), tail', ⟨hk, ?_, ?_, ?_⟩, grown⟩
  · exact form.of_full (by omega) (by omega)
  · exact List.forall_mem_append.mpr ⟨first, List.forall_mem_append.mpr ⟨more, last⟩⟩
  · exact fun completion => absurd completion other

end Grown

end Wire

namespace Protocol

section Decided

variable {p : Protocol} {binder : Binder} {payload frame : Bytes} {n : Nat} {kind : Int}

theorem first_concludes {e : WireError} (framed : Frame p.framing.maxPayload payload frame)
    (rest : Bytes) (h : Concludes n kind payload) (enough : 4 ≤ n) (refused : ∀ headers id bs,
      readEnding p.maxNestingDepth binder n headers id kind bs = .error e bs) :
    p.first binder (frame ++ rest) = .error e.insideFrame := by
  obtain ⟨left, failed⟩ := readMessage_concludes h enough refused
  exact first_of_read_error framed failed rest

theorem first_kind (framed : Frame p.framing.maxPayload payload frame) (rest : Bytes)
    (h : Concludes n kind payload) (enough : 4 ≤ n) (unknown : kind < 1 ∨ 3 < kind) :
    p.first binder (frame ++ rest) = .error (.protocolViolation (.resultKind kind)) := by
  have unlisted : ResultKind.ofCode? kind = none := by
    rw [Option.eq_none_iff_forall_ne_some]
    intro k found
    have code := ResultKind.ofCode?_eq_some_iff.mp found
    cases k <;> simp only [ResultKind.code] at code <;> omega
  exact first_concludes framed rest h enough fun _ _ _ => readEnding_unknown unlisted

theorem first_few {k : ResultKind} (framed : Frame p.framing.maxPayload payload frame)
    (rest : Bytes) (h : Concludes n k.code payload) (enough : 4 ≤ n) (few : n < k.fields) :
    p.first binder (frame ++ rest) =
      .error (.protocolViolation (.resultFields k.code n k.fields)) :=
  first_concludes framed rest h enough fun _ _ _ => readEnding_few few

theorem first_many {k : ResultKind} (framed : Frame p.framing.maxPayload payload frame)
    (rest : Bytes) (h : Concludes n k.code payload) (many : k.fields < n) :
    p.first binder (frame ++ rest) =
      .error (.malformedValue (.extraFields k.code (n - k.fields))) := by
  have enough : 4 ≤ n := by
    cases k <;> simp only [ResultKind.fields] at many <;> omega
  exact first_concludes framed rest h enough fun _ _ _ => readEnding_many many

theorem first_begins {type : MessageType} {body : Bytes}
    (framed : Frame p.framing.maxPayload payload frame) (rest : Bytes)
    (h : Begins n type body payload) (few : n < (layout type).least) :
    p.first binder (frame ++ rest) =
      .error (.protocolViolation
        (if n = 0 then .emptyMessage else .fewFields type n (layout type).least)) := by
  split
  · subst n
    obtain ⟨length, -⟩ := h
    exact first_of_read_error framed (readMessage_empty length _) rest
  · exact first_of_read_error framed (readMessage_few h (by omega) few) rest

theorem fields_of_concludes {answer : Option Message} {used : Nat}
    (framed : Frame p.framing.maxPayload payload frame) (rest : Bytes)
    (h : Concludes n kind payload) (read : p.first binder (frame ++ rest) = .ok (answer, used)) :
    ∃ k : ResultKind, kind = k.code ∧ n = k.fields := by
  have enough : 4 ≤ n := by
    by_contra few
    obtain ⟨-, -, -, -, begins⟩ := h
    rw [first_begins framed rest begins (Nat.not_le.mp few)] at read
    cases read
  have known : ¬(kind < 1 ∨ 3 < kind) := by
    intro unknown
    rw [first_kind framed rest h enough unknown] at read
    cases read
  obtain ⟨k, rfl⟩ : ∃ k : ResultKind, kind = k.code := by
    obtain rfl | rfl | rfl : kind = 1 ∨ kind = 2 ∨ kind = 3 := by omega
    · exact ⟨.error, rfl⟩
    · exact ⟨.void, rfl⟩
    · exact ⟨.result, rfl⟩
  refine ⟨k, rfl, ?_⟩
  rcases Nat.lt_trichotomy n k.fields with few | same | many
  · rw [first_few framed rest h enough few] at read
    cases read
  · exact same
  · rw [first_many framed rest h many] at read
    cases read

/-- What the count of members decides. No message is empty, or has fewer members than its type
calls for; a completion has as many as the kind of its result calls for, whatever stands behind
that kind; any other message takes more members than its type knows, and is the same with them. -/
theorem arity_decides (framed : Frame p.framing.maxPayload payload frame) (rest : Bytes) :
    (∀ head body, Length .array 0 head → payload = head ++ body →
      p.first binder (frame ++ rest) = .error (.protocolViolation .emptyMessage)) ∧
    (∀ n type body, Begins n type body payload → 0 < n → n < (layout type).least →
      p.first binder (frame ++ rest) =
        .error (.protocolViolation (.fewFields type n (layout type).least))) ∧
    (∀ n kind, Concludes n kind payload → 4 ≤ n →
      (kind < 1 ∨ 3 < kind →
        p.first binder (frame ++ rest) = .error (.protocolViolation (.resultKind kind))) ∧
      (kind = 1 ∨ kind = 3 → n = 4 →
        p.first binder (frame ++ rest) = .error (.protocolViolation (.resultFields kind 4 5))) ∧
      (kind = 2 → 4 < n →
        p.first binder (frame ++ rest) = .error (.malformedValue (.extraFields 2 (n - 4)))) ∧
      (kind = 1 ∨ kind = 3 → 5 < n →
        p.first binder (frame ++ rest) = .error (.malformedValue (.extraFields kind (n - 5))))) ∧
    (∀ n kind answer used, Concludes n kind payload →
      p.first binder (frame ++ rest) = .ok (answer, used) →
      kind = 2 ∧ n = 4 ∨ (kind = 1 ∨ kind = 3) ∧ n = 5) ∧
    ∀ m used, p.first binder (frame ++ rest) = .ok (some m, used) → m.type ≠ .completion →
      ∀ known before added after tail tail' payload' frame' rest',
        Members (known ++ (before ++ after)) tail payload → known.length = (layout m.type).most →
        (∀ e ∈ added, ∃ v, Within p.maxNestingDepth v e) →
        Members (known ++ (before ++ (added ++ after))) tail' payload' →
        Frame p.framing.maxPayload payload' frame' →
        p.first binder (frame' ++ rest') = .ok (some m, frame'.length) := by
  refine ⟨?_, fun n type body h filled few => ?_, fun n kind h enough => ⟨?_, ?_, ?_, ?_⟩, ?_, ?_⟩
  · rintro head body length rfl
    exact first_of_read_error framed (readMessage_empty length body) rest
  · rw [first_begins framed rest h few, if_neg (Nat.ne_of_gt filled)]
  · exact first_kind framed rest h enough
  · rintro (rfl | rfl) rfl
    · exact first_few (k := .error) framed rest h enough (by decide)
    · exact first_few (k := .result) framed rest h enough (by decide)
  · rintro rfl many
    exact first_many (k := .void) framed rest h many
  · rintro (rfl | rfl) many
    · exact first_many (k := .error) framed rest h many
    · exact first_many (k := .result) framed rest h many
  · intro n kind answer used h read
    obtain ⟨k, rfl, rfl⟩ := fields_of_concludes framed rest h read
    cases k with
    | error => exact .inr ⟨.inl rfl, rfl⟩
    | void => exact .inl ⟨rfl, rfl⟩
    | result => exact .inr ⟨.inr rfl, rfl⟩
  · intro m used read other known before added after tail tail' payload' frame' rest' whole full
      more grown framed'
    obtain ⟨raw, form, rfl, -⟩ := (first_eq_some_iff framed rest).mp read
    rw [Message.type_bound] at other full
    have form' := form.grown other whole full more grown
    exact (first_eq_some_iff framed' rest').mpr ⟨raw, form', rfl, rfl⟩

/-- Too few members and too many, before a reserved byte that is never read; then a close message,
which is the same with one member more. -/
theorem arity_decides_samples :
    ((ofConfig ⟨100, 1⟩).first .untyped [1, 0x90] = .error (.protocolViolation .emptyMessage) ∧
      (ofConfig ⟨100, 1⟩).first .untyped [3, 0x92, 5, 0xc1] =
        .error (.protocolViolation (.fewFields .cancelInvocation 2 3))) ∧
    ((ofConfig ⟨100, 1⟩).first .untyped [7, 0x94, 3, 0x80, 0xa1, 49, 1, 0xc1] =
        .error (.protocolViolation (.resultFields 1 4 5)) ∧
      (ofConfig ⟨100, 1⟩).first .untyped [7, 0x95, 3, 0x80, 0xa1, 49, 2, 0xc1] =
        .error (.malformedValue (.extraFields 2 1)) ∧
      (ofConfig ⟨100, 1⟩).first .untyped [7, 0x96, 3, 0x80, 0xa1, 49, 4, 0xc1] =
        .error (.protocolViolation (.resultKind 4))) ∧
    (ofConfig ⟨100, 1⟩).first .untyped [5, 0x94, 7, 0xc0, 0xc3, 0x90] =
      .ok (some (.close { allowReconnect := some true }), 6) := by
  have head {n : Nat} (short : (n, 0x90 + n) ∈ LengthForms.array.short) :
      Length .array n [UInt8.ofNat (0x90 + n)] := .short short
  have framed (payload : Bytes) (small : payload.length < 100) :
      Frame 100 payload ([UInt8.ofNat payload.length] ++ payload) :=
    .mk (.last (by omega)) (Nat.le_of_lt small)
  have none : MapOf Text Text [] ([0x80] ++ []) :=
    .mk (.short (by decide : (0, 0x80) ∈ LengthForms.map.short)) .nil
  have headers : HeaderMap ∅ [0x80] := .mk none fun _ => rfl
  have one : Utf8.encode "1" = [49] := by cbv
  have id : Text "1" [0xa1, 49] := by
    have short : (1, 0xa1) ∈ LengthForms.string.short := by decide
    have form : Text "1" ([0xa1] ++ Utf8.encode "1") := .mk (.short (one ▸ short))
    rwa [one] at form
  have cancel : Begins 2 .cancelInvocation [0xc1] [0x92, 5, 0xc1] :=
    .mk (head (by decide)) (.positive (by decide))
  have ends {n kind : Nat} (short : (n, 0x90 + n) ∈ LengthForms.array.short) (low : kind < 128) :
      Concludes n kind
        [UInt8.ofNat (0x90 + n), 3, 0x80, 0xa1, 49, UInt8.ofNat kind, 0xc1] :=
    .mk headers id (.positive low) (by omega)
      (.mk (head short) (.positive (by decide : (layout .completion).code < 128)))
  have nil : Encodes .nil [0xc0] := .nil .mk
  have yes : Encodes (.bool true) [0xc3] := .bool .true
  have code : Encodes (.int 7) [7] := .int (.positive (by decide : 7 < 128))
  have list : Encodes (.array []) [0x90] := .array (head (by decide)) .nil
  have known : ∀ e ∈ [[7], [0xc0], [0xc3]], ∃ v, Encodes v e := by
    simpa using ⟨⟨_, code⟩, ⟨_, nil⟩, ⟨_, yes⟩⟩
  have closed : Members ([[7], [0xc0], [0xc3]] ++ ([] ++ [])) [] [0x93, 7, 0xc0, 0xc3] :=
    .mk (head (by decide)) known []
  have larger : Members ([[7], [0xc0], [0xc3]] ++ ([] ++ ([[0x90]] ++ []))) []
      [0x94, 7, 0xc0, 0xc3, 0x90] :=
    .mk (head (by decide)) (by simpa using ⟨⟨_, code⟩, ⟨_, nil⟩, ⟨_, yes⟩, ⟨_, list⟩⟩) []
  have read : (ofConfig ⟨100, 1⟩).first .untyped [4, 0x93, 7, 0xc0, 0xc3] =
      .ok (some (.close { allowReconnect := some true }), 5) := by cbv
  have decided {payload : Bytes} (small : payload.length < 100) :=
    @arity_decides (ofConfig ⟨100, 1⟩) .untyped payload _ (framed payload small) []
  refine ⟨⟨?_, ?_⟩, ⟨?_, ?_, ?_⟩, ?_⟩
  · exact (decided (by decide)).1 [0x90] [] (head (by decide)) rfl
  · exact (decided (by decide)).2.1 2 _ _ cancel (by decide) (by decide)
  · exact ((decided (by decide)).2.2.1 4 1 (ends (by decide) (by decide)) (by decide)).2.1
      (.inl rfl) rfl
  · exact ((decided (by decide)).2.2.1 5 2 (ends (by decide) (by decide)) (by decide)).2.2.1
      rfl (by decide)
  · exact ((decided (by decide)).2.2.1 6 4 (ends (by decide) (by decide)) (by decide)).1
      (.inr (by decide))
  · exact (decided (by decide)).2.2.2.2 _ _ read (by decide) _ _ _ _ _ _ _ _ [] closed rfl
      (by simpa using ⟨_, list, by decide⟩) larger (framed _ (by decide))

end Decided

end Protocol

end HubPack
