import HubPack.Message.Reader
import HubPack.Proofs.Reading.Value
import HubPack.Proofs.Wire.Message

namespace HubPack
open Wire

theorem peekNil_cons (m : Marker) (bs : Bytes) :
    peekNil (m.toByte :: bs) = .ok (m.form == .nil) (m.toByte :: bs) :=
  bind_of_ok (peekMarker_cons m bs)

theorem Reads.orNil {α : Type} {k : Reader (Option α)} {P : α → Bytes → Prop}
    (hk : Reads k fun o e => ∃ a, P a e ∧ o = some a)
    (other : ∀ a e, P a e → ∃ (m : Marker) (tail : Bytes), e = m.toByte :: tail ∧ m.form ≠ .nil) :
    Reads (do
      if ← peekNil then
        readNil
        pure none
      else k) (OrNil P) where
  complete {o e} h rest := by
    cases h with
    | none h =>
      cases h
      rfl
    | some h =>
      obtain ⟨m, tail, rfl, hm⟩ := other _ _ h
      rw [List.cons_append, bind_of_ok (peekNil_cons m _), if_neg (by simpa using hm)]
      exact hk.complete ⟨_, h, rfl⟩ rest
  sound {bs rest o} h := by
    obtain ⟨isNil, mid, peeked, h⟩ := bind_eq_ok_iff.mp h
    obtain ⟨m, mid, hm, hk'⟩ := bind_eq_ok_iff.mp peeked
    obtain ⟨tail, rfl, rfl⟩ := peekMarker_ok hm
    cases hk'
    split at h
    · obtain ⟨e, ⟨_, _, _, hn, ⟨rfl, rfl⟩, rfl⟩, same⟩ :=
        (reads_nil.bind fun _ => .done (none : Option α)).sound h
      exact ⟨_, .none hn, by rwa [List.append_nil] at same⟩
    · obtain ⟨e, ⟨a, ha, rfl⟩, same⟩ := hk.sound h
      exact ⟨e, .some ha, same⟩

theorem text_head {s : String} {e : Bytes} (h : Text s e) :
    ∃ (m : Marker) (tail : Bytes), e = m.toByte :: tail ∧ m.form ≠ .nil := by
  cases h with
  | mk length =>
    obtain ⟨m, x, tail, hm, _, rfl⟩ := announces_string.length_iff.mp length
    exact ⟨m, _, rfl, by simp [hm]⟩

theorem array_head {α : Type} {P : α → Bytes → Prop} {as : List α} {e : Bytes}
    (h : ArrayOf P as e) : ∃ (m : Marker) (tail : Bytes), e = m.toByte :: tail ∧ m.form ≠ .nil := by
  cases h with
  | mk length _ =>
    obtain ⟨m, x, tail, hm, _, rfl⟩ := announces_array.length_iff.mp length
    exact ⟨m, _, rfl, by simp [hm]⟩

theorem reads_textOrNil : Reads readStringOrNil (OrNil Text) :=
  Reads.orNil (reads_text.map some) fun _ _ => text_head

theorem reads_headers : Reads readHeaders HeaderMap := by
  refine (reads_text.mapOf reads_text TextMap.ofList).congr fun headers e => ⟨?_, ?_⟩
  · rintro ⟨entries, h, same⟩
    exact .mk h (TextMap.eq_ofList_iff.mp same)
  · rintro ⟨h, same⟩
    exact ⟨_, h, TextMap.eq_ofList_iff.mpr same⟩

theorem reads_arguments (limit : Nat) (target : String) :
    Reads (readArguments limit .untyped target) (ArrayOf (Within limit)) := by
  refine ((reads_value limit).arrayOf (coerceArguments [])).congr fun vs e => ⟨?_, ?_⟩
  · rintro ⟨raw, h, rfl⟩
    exact h
  · intro h
    exact ⟨vs, h, rfl⟩

theorem Reads.slot {α : Type} {P : Option α → Bytes → Prop} {least n : Nat}
    {r : Reader (Option α)} (hr : Reads r P) :
    Reads (if n < least then pure none else r) fun o e => ∃ parts, Slot P least n o parts ∧
      e = parts.flatten := by
  split
  · rename_i short
    refine (Reads.done none).congr fun o e => ⟨?_, ?_⟩
    · rintro ⟨rfl, rfl⟩
      exact ⟨[], .absent short, rfl⟩
    · rintro ⟨_, h, rfl⟩
      cases h with
      | absent => exact ⟨rfl, rfl⟩
      | present long => omega
  · rename_i long
    refine hr.congr fun o e => ⟨?_, ?_⟩
    · intro h
      exact ⟨[e], .present (by omega) h, by simp⟩
    · rintro ⟨_, h, rfl⟩
      cases h with
      | absent short => exact absurd short long
      | present _ h => simpa using h

theorem reads_streamIds (n : Nat) : Reads (readStreamIds n) fun ids e => ∃ parts,
    Slot (OrNil (ArrayOf Text)) 6 n ids parts ∧ e = parts.flatten :=
  Reads.slot (Reads.orNil (reads_text.arrayOf some) fun _ _ => array_head)

theorem reads_hinted (limit : Nat) : Reads (readHinted limit none) (Within limit) := by
  refine ((reads_value limit).map (coerceTo none)).congr fun v e => ⟨?_, ?_⟩
  · rintro ⟨_, h, rfl⟩
    exact h
  · intro h
    exact ⟨v, h, rfl⟩

theorem reads_outcome (limit : Nat) (id : String) (kind : ResultKind) :
    Reads (readOutcome limit .untyped id kind) fun o e => o.kind = kind ∧
      ∃ carried, Carried limit o carried ∧ e = carried.flatten := by
  cases kind with
  | error =>
    refine (reads_text.map Outcome.error).congr fun o e => ⟨?_, ?_⟩
    · rintro ⟨s, h, rfl⟩
      exact ⟨rfl, _, .error h, by simp⟩
    · rintro ⟨same, _, h, rfl⟩
      cases h with
      | error h => exact ⟨_, by simpa using h, rfl⟩
      | void | result => cases same
  | void =>
    refine (Reads.done Outcome.void).congr fun o e => ⟨?_, ?_⟩
    · rintro ⟨rfl, rfl⟩
      exact ⟨rfl, _, .void, rfl⟩
    · rintro ⟨same, _, h, rfl⟩
      cases h with
      | void => exact ⟨rfl, rfl⟩
      | error | result => cases same
  | result =>
    refine ((reads_hinted limit).map Outcome.result).congr fun o e => ⟨?_, ?_⟩
    · rintro ⟨v, h, rfl⟩
      exact ⟨rfl, _, .result h, by simp⟩
    · rintro ⟨same, _, h, rfl⟩
      cases h with
      | result h => exact ⟨_, by simpa using h, rfl⟩
      | error | void => cases same

theorem resultKind_eq (o : Outcome) : resultKind o = o.kind.code := by
  cases o <;> rfl

theorem carried_length {limit : Nat} {o : Outcome} {carried : List Bytes}
    (h : Carried limit o carried) : o.kind.fields = 4 + carried.length := by
  cases h <;> rfl

/-- The kind of an outcome decides the count of the fields, and the count is checked before the
outcome is read. -/
theorem reads_ending (limit n : Nat) (headers : Headers) (id : String) (code : Int) :
    Reads (match ResultKind.ofCode? code with
      | none => violation (.resultKind code)
      | some kind =>
        if n < kind.fields then violation (.resultFields code n kind.fields)
        else if kind.fields < n then malformed (.extraFields code (n - kind.fields))
        else do
          let outcome ← readOutcome limit .untyped id kind
          pure { headers, id, outcome : Completion })
      fun c e => ∃ carried, c.headers = headers ∧ c.id = id ∧ code = resultKind c.outcome ∧
        n = 4 + carried.length ∧ Carried limit c.outcome carried ∧ e = carried.flatten := by
  generalize known : ResultKind.ofCode? code = found
  cases found with
  | none =>
    refine (Reads.never _).congr fun c e => ⟨False.elim, ?_⟩
    rintro ⟨_, -, -, same, -⟩
    rw [resultKind_eq] at same
    rw [ResultKind.ofCode?_eq_some_iff.mpr same] at known
    cases known
  | some kind =>
    have code_eq := ResultKind.ofCode?_eq_some_iff.mp known
    have kind_eq : ∀ o : Outcome, code = resultKind o → o.kind = kind := by
      intro o same
      rw [resultKind_eq] at same
      have := ResultKind.ofCode?_eq_some_iff.mpr same
      rw [known] at this
      exact (Option.some.inj this).symm
    by_cases exact : n = kind.fields
    · simp only [exact, Nat.lt_irrefl, ↓reduceIte]
      refine ((reads_outcome limit id kind).bind fun o =>
        .done (Completion.mk headers id o)).congr fun c e => ⟨?_, ?_⟩
      · rintro ⟨o, _, _, ⟨rfl, carried, h, rfl⟩, ⟨rfl, rfl⟩, rfl⟩
        refine ⟨carried, rfl, rfl, ?_, carried_length h, h, List.append_nil _⟩
        rw [code_eq, resultKind_eq]
      · rintro ⟨carried, rfl, rfl, same, -, h, rfl⟩
        exact ⟨_, _, [], ⟨kind_eq _ same, carried, h, rfl⟩, ⟨rfl, rfl⟩, (List.append_nil _).symm⟩
    · have refused : Reads (if n < kind.fields then violation (.resultFields code n kind.fields)
          else if kind.fields < n then malformed (.extraFields code (n - kind.fields))
          else do
            let outcome ← readOutcome limit .untyped id kind
            pure { headers, id, outcome : Completion }) fun _ _ => False := by
        by_cases few : n < kind.fields
        · rw [if_pos few]
          exact .never _
        · rw [if_neg few, if_pos (by omega)]
          exact .never _
      refine refused.congr fun c e => ⟨False.elim, ?_⟩
      rintro ⟨carried, -, -, same, count, h, -⟩
      rw [← carried_length h, kind_eq _ same] at count
      exact exact count

theorem reads_completion (limit n : Nat) :
    Reads (readCompletion limit .untyped n) fun c e => ∃ fields, n = 1 + fields.length ∧
      Fields limit n (.completion c) fields ∧ e = fields.flatten := by
  refine (reads_headers.bind fun headers => reads_text.bind fun id => reads_int.bind fun code =>
    reads_ending limit n headers id code.toInt).congr fun c e => ⟨?_, ?_⟩
  · rintro ⟨_, h, _, hh, ⟨_, i, _, hi, ⟨code, k, _, hk, ⟨carried, rfl, rfl, same, count, hc, rfl⟩,
      rfl⟩, rfl⟩, rfl⟩
    rw [same] at hk
    refine ⟨_, ?_, .completion hh hi hk hc, by simp⟩
    simp only [List.cons_append, List.nil_append, List.length_cons]
    omega
  · rintro ⟨_, count, fields, rfl⟩
    cases fields with
    | @completion _ _ _ _ carried hh hi hk hc =>
      have small : (Int64.ofInt (resultKind c.outcome)).toInt = resultKind c.outcome := by
        cases c.outcome <;> rfl
      refine ⟨_, _, _, hh, ⟨_, _, _, hi, ⟨_, _, _, small.symm ▸ hk,
        ⟨carried, rfl, rfl, small, ?_, hc, rfl⟩, rfl⟩, rfl⟩, by simp⟩
      simp only [List.cons_append, List.nil_append, List.length_cons] at count
      omega

theorem typeCode_eq (m : Message) : typeCode m = m.type.code := by
  cases m <;> rfl

theorem slot_length {α : Type} {P : Option α → Bytes → Prop} {least n : Nat} {o : Option α}
    {parts : List Bytes} (h : Slot P least n o parts) :
    parts.length = if n < least then 0 else 1 := by
  cases h with
  | absent short => rw [if_pos short]; rfl
  | present long _ => rw [if_neg (by omega)]; rfl

/-- What a read of the body answers, on the bytes that it reads: a message of the type, and the
count of its fields. Nothing may follow the fields of a completion. -/
inductive Body (limit n : Nat) (type : MessageType) : Message × Nat → Bytes → Prop where
  | mk {m : Message} {fields : List Bytes} {read : Nat} : m.type = type → Fields limit n m fields →
      read = 1 + fields.length → (type = .completion → n = read) →
      Body limit n type (m, read) fields.flatten

/-- The fields of an invocation and of a stream invocation, which differ in their ids, and the count
of those fields. -/
inductive Call {ι : Type} (limit n : Nat) (P : ι → Bytes → Prop)
    (make : Headers → ι → String → List Value → Option (List String) → Message) :
    Message × Nat → Bytes → Prop where
  | mk {headers : Headers} {id : ι} {target : String} {arguments : List Value}
      {streamIds : Option (List String)} {h i t a : Bytes} {parts : List Bytes} {read : Nat} :
      HeaderMap headers h → P id i → Text target t → ArrayOf (Within limit) arguments a →
      Slot (OrNil (ArrayOf Text)) 6 n streamIds parts →
      read = 1 + ([h, i, t, a] ++ parts).length →
      Call limit n P make (make headers id target arguments streamIds, read)
        ([h, i, t, a] ++ parts).flatten

theorem reads_call {ι : Type} {readId : Reader ι} {P : ι → Bytes → Prop} (hr : Reads readId P)
    (make : Headers → ι → String → List Value → Option (List String) → Message)
    {limit n : Nat} (enough : 5 ≤ n) :
    Reads (do
      let headers ← readHeaders
      let id ← readId
      let target ← readString
      let arguments ← readArguments limit .untyped target
      let streamIds ← readStreamIds n
      pure (make headers id target arguments streamIds, min n 6)) (Call limit n P make) := by
  refine (reads_headers.bind fun headers => hr.bind fun id => reads_text.bind fun target =>
    (reads_arguments limit target).bind fun arguments => (reads_streamIds n).bind fun streamIds =>
    .done (make headers id target arguments streamIds, min n 6)).congr fun answer e => ⟨?_, ?_⟩
  · rintro ⟨headers, _, _, hh, ⟨id, _, _, hi, ⟨target, _, _, ht, ⟨arguments, _, _, ha,
      ⟨streamIds, _, _, ⟨parts, hs, rfl⟩, ⟨rfl, rfl⟩, rfl⟩, rfl⟩, rfl⟩, rfl⟩, rfl⟩
    have form : Call limit n P make (make headers id target arguments streamIds, min n 6) _ :=
      .mk hh hi ht ha hs ?_
    · simpa using form
    · have length := slot_length hs
      simp only [List.cons_append, List.nil_append, List.length_cons]
      split at length <;> omega
  · rintro ⟨hh, hi, ht, ha, hs, rfl⟩
    refine ⟨_, _, _, hh, ⟨_, _, _, hi, ⟨_, _, _, ht, ⟨_, _, _, ha, ⟨_, _, [], ⟨_, hs, rfl⟩,
      ⟨?_, rfl⟩, rfl⟩, rfl⟩, rfl⟩, rfl⟩, by simp⟩
    have length := slot_length hs
    simp only [List.cons_append, List.nil_append, List.length_cons, Prod.mk.injEq, true_and]
    split at length <;> omega

theorem reads_invocation {limit n : Nat} (enough : 5 ≤ n) :
    Reads (readBody limit .untyped n .invocation) (Body limit n .invocation) := by
  refine (reads_call reads_textOrNil (fun headers id target arguments streamIds =>
    .invocation { headers, id, target, arguments, streamIds }) enough).congr
      fun answer e => ⟨?_, ?_⟩
  · rintro ⟨hh, hi, ht, ha, hs, read⟩
    exact .mk rfl (.invocation hh hi ht ha hs) read nofun
  · rintro ⟨same, fields, rfl, -⟩
    cases fields with
    | invocation hh hi ht ha hs => exact .mk hh hi ht ha hs rfl
    | _ => cases same

theorem reads_streamInvocation {limit n : Nat} (enough : 5 ≤ n) :
    Reads (readBody limit .untyped n .streamInvocation) (Body limit n .streamInvocation) := by
  refine (reads_call reads_text (fun headers id target arguments streamIds =>
    .streamInvocation { headers, id, target, arguments, streamIds }) enough).congr
      fun answer e => ⟨?_, ?_⟩
  · rintro ⟨hh, hi, ht, ha, hs, read⟩
    exact .mk rfl (.streamInvocation hh hi ht ha hs) read nofun
  · rintro ⟨same, fields, rfl, -⟩
    cases fields with
    | streamInvocation hh hi ht ha hs => exact .mk hh hi ht ha hs rfl
    | _ => cases same

theorem reads_streamItem (limit n : Nat) :
    Reads (readBody limit .untyped n .streamItem) (Body limit n .streamItem) := by
  refine (reads_headers.bind fun headers => reads_text.bind fun id => (reads_hinted limit).bind
    fun item => .done (Message.streamItem { headers, id, item }, 4)).congr fun answer e => ⟨?_, ?_⟩
  · rintro ⟨headers, _, _, hh, ⟨id, _, _, hi, ⟨item, _, _, hv, ⟨rfl, rfl⟩, rfl⟩, rfl⟩, rfl⟩
    have form : Body limit n .streamItem (.streamItem ⟨headers, id, item⟩, 4) _ :=
      .mk rfl (.streamItem hh hi hv) rfl nofun
    simpa using form
  · rintro ⟨same, fields, rfl, -⟩
    cases fields with
    | streamItem hh hi hv =>
      exact ⟨_, _, _, hh, ⟨_, _, _, hi, ⟨_, _, [], hv, ⟨rfl, rfl⟩, rfl⟩, rfl⟩, by simp⟩
    | _ => cases same

theorem reads_completionBody (limit n : Nat) :
    Reads (readBody limit .untyped n .completion) (Body limit n .completion) := by
  refine ((reads_completion limit n).bind fun c => .done (Message.completion c, n)).congr
    fun answer e => ⟨?_, ?_⟩
  · rintro ⟨c, _, _, ⟨fields, count, form, rfl⟩, ⟨rfl, rfl⟩, rfl⟩
    rw [List.append_nil]
    exact .mk rfl form count fun _ => rfl
  · rintro ⟨same, fields, rfl, all⟩
    cases fields with
    | completion hh hi hk hc =>
      have count := all rfl
      exact ⟨_, _, [], ⟨_, count, .completion hh hi hk hc, rfl⟩, ⟨by rw [← count], rfl⟩,
        (List.append_nil _).symm⟩
    | _ => cases same

theorem reads_cancelInvocation (limit n : Nat) :
    Reads (readBody limit .untyped n .cancelInvocation) (Body limit n .cancelInvocation) := by
  refine (reads_headers.bind fun headers => reads_text.bind fun id =>
    .done (Message.cancelInvocation { headers, id }, 3)).congr fun answer e => ⟨?_, ?_⟩
  · rintro ⟨headers, _, _, hh, ⟨id, _, _, hi, ⟨rfl, rfl⟩, rfl⟩, rfl⟩
    have form : Body limit n .cancelInvocation (.cancelInvocation ⟨headers, id⟩, 3) _ :=
      .mk rfl (.cancelInvocation hh hi) rfl nofun
    simpa using form
  · rintro ⟨same, fields, rfl, -⟩
    cases fields with
    | cancelInvocation hh hi =>
      exact ⟨_, _, _, hh, ⟨_, _, [], hi, ⟨rfl, rfl⟩, rfl⟩, by simp⟩
    | _ => cases same

theorem reads_ping (limit n : Nat) :
    Reads (readBody limit .untyped n .ping) (Body limit n .ping) := by
  refine (Reads.done (Message.ping, 1)).congr fun answer e => ⟨?_, ?_⟩
  · rintro ⟨rfl, rfl⟩
    exact .mk rfl .ping rfl nofun
  · rintro ⟨same, fields, rfl, -⟩
    cases fields with
    | ping => exact ⟨rfl, rfl⟩
    | _ => cases same

theorem reads_given {α : Type} {r : Reader α} {P : α → Bytes → Prop} (hr : Reads r P) :
    Reads (some <$> r) (Given P) := by
  refine (hr.map some).congr fun o e => ⟨?_, ?_⟩
  · rintro ⟨a, h, rfl⟩
    exact .mk h
  · rintro ⟨h⟩
    exact ⟨_, h, rfl⟩

theorem readBody_close {limit n : Nat} (enough : 2 ≤ n) :
    readBody limit .untyped n .close = readStringOrNil >>= fun error =>
      (if n < 3 then pure none else some <$> readBool) >>= fun allow =>
        pure (Message.close ⟨error, allow⟩, min n 3) := by
  rw [readBody]
  congr
  funext error
  split
  · have two : min n 3 = 2 := by omega
    rw [two, pure_bind]
  · have three : min n 3 = 3 := by omega
    rw [three, bind_map_left]

theorem reads_close {limit n : Nat} (enough : 2 ≤ n) :
    Reads (readBody limit .untyped n .close) (Body limit n .close) := by
  rw [readBody_close enough]
  have flag : Reads (if n < 3 then pure none else some <$> readBool) fun o e => ∃ parts,
      Slot (Given Flag) 3 n o parts ∧ e = parts.flatten := Reads.slot (reads_given reads_bool)
  have read := reads_textOrNil.bind fun error => flag.bind fun allow =>
    .done (Message.close ⟨error, allow⟩, min n 3)
  refine read.congr fun answer e => ⟨?_, ?_⟩
  · rintro ⟨error, _, _, he, ⟨allow, _, _, ⟨parts, ha, rfl⟩, ⟨rfl, rfl⟩, rfl⟩, rfl⟩
    have form : Body limit n .close (.close ⟨error, allow⟩, min n 3) _ :=
      .mk rfl (.close he ha) ?_ nofun
    · simpa using form
    · have length := slot_length ha
      simp only [List.length_cons]
      split at length <;> omega
  · rintro ⟨same, fields, rfl, -⟩
    cases fields with
    | close he ha =>
      refine ⟨_, _, _, he, ⟨_, _, [], ⟨_, ha, rfl⟩, ⟨?_, rfl⟩, rfl⟩, by simp⟩
      have length := slot_length ha
      simp only [List.length_cons, Prod.mk.injEq, true_and]
      split at length <;> omega
    | _ => cases same

theorem reads_body {limit n : Nat} {type : MessageType} (enough : type.minFields ≤ n) :
    Reads (readBody limit .untyped n type) (Body limit n type) := by
  cases type with
  | invocation => exact reads_invocation enough
  | streamItem => exact reads_streamItem limit n
  | completion => exact reads_completionBody limit n
  | streamInvocation => exact reads_streamInvocation enough
  | cancelInvocation => exact reads_cancelInvocation limit n
  | ping => exact reads_ping limit n
  | close => exact reads_close enough

theorem minFields_le {limit n : Nat} {m : Message} {fields : List Bytes}
    (h : Fields limit n m fields) : m.type.minFields ≤ 1 + fields.length := by
  cases h with
  | invocation | streamInvocation | completion | close =>
    simp only [Message.type, MessageType.minFields, List.cons_append, List.nil_append,
      List.length_cons]
    omega
  | _ => exact Nat.le_refl _

theorem dropped_iff {P : Bytes → Prop} {e : Bytes} {count : Nat} :
    (∃ us : List Unit, us.length = count ∧ Sequence (fun _ e => P e) us e) ↔
      ∃ parts : List Bytes, parts.length = count ∧ (∀ e ∈ parts, P e) ∧ e = parts.flatten := by
  constructor
  · rintro ⟨us, rfl, s⟩
    induction s with
    | nil => exact ⟨[], rfl, by simp, rfl⟩
    | cons head _ ih =>
      obtain ⟨parts, length, each, rfl⟩ := ih
      exact ⟨_ :: parts, congrArg (· + 1) length, List.forall_mem_cons.mpr ⟨head, each⟩, rfl⟩
  · rintro ⟨parts, rfl, each, rfl⟩
    induction parts with
    | nil => exact ⟨[], rfl, .nil⟩
    | cons first rest ih =>
      obtain ⟨head, tail⟩ := List.forall_mem_cons.mp each
      obtain ⟨us, length, s⟩ := ih tail
      exact ⟨() :: us, congrArg (· + 1) length, .cons head s⟩

theorem fields_le {limit n : Nat} {m : Message} {fields : List Bytes} (h : Fields limit n m fields)
    (enough : m.type.minFields ≤ n) (all : m.type = .completion → n = 1 + fields.length) :
    1 + fields.length ≤ n := by
  cases h with
  | invocation _ _ _ _ hs | streamInvocation _ _ _ _ hs | close _ hs =>
    have length := slot_length hs
    simp only [Message.type, MessageType.minFields, List.cons_append, List.nil_append,
      List.length_cons] at enough ⊢
    split at length <;> omega
  | completion => exact Nat.le_of_eq (all rfl).symm
  | _ => exact enough

theorem reads_known (limit n : Nat) (type : MessageType) :
    Reads (readKnown limit .untyped n type) fun m e => m.type = type ∧ ∃ fields extra,
      n = 1 + fields.length + extra.length ∧ Fields limit n m fields ∧ Appended limit m extra ∧
        e = fields.flatten ++ extra.flatten := by
  rw [readKnown]
  split
  · rename_i few
    refine (Reads.never _).congr fun m e => ⟨False.elim, ?_⟩
    rintro ⟨rfl, fields, extra, count, form, -, -⟩
    have least := minFields_le form
    omega
  · rename_i enough
    refine ((reads_body (Nat.not_lt.mp enough)).bind fun answer =>
      ((reads_skip limit).many (n - answer.2)).bind fun _ => .done answer.1).congr
        fun m e => ⟨?_, ?_⟩
    · rintro ⟨_, _, _, @⟨m, fields, _, rfl, form, rfl, all⟩,
        ⟨us, _, _, skipped, ⟨rfl, rfl⟩, rfl⟩, rfl⟩
      obtain ⟨extra, length, each, rfl⟩ := dropped_iff.mp ⟨us, skipped⟩
      have bound := fields_le form (Nat.not_lt.mp enough) all
      refine ⟨rfl, fields, extra, by omega, form, ⟨each, fun completion => ?_⟩, by simp⟩
      have exact := all completion
      exact List.eq_nil_of_length_eq_zero (by omega)
    · rintro ⟨rfl, fields, extra, count, form, ⟨each, none⟩, rfl⟩
      have length : extra.length = n - (1 + fields.length) := by omega
      obtain ⟨us, skipped⟩ := dropped_iff.mpr ⟨extra, length, each, rfl⟩
      refine ⟨(m, 1 + fields.length), _, _, .mk rfl form rfl fun completion => ?_,
        ⟨us, _, [], skipped, ⟨rfl, rfl⟩, rfl⟩, by simp⟩
      rw [count, none completion]
      rfl

def Answered (limit : Nat) : Option Message → Bytes → Prop
  | some m => Represents limit m
  | none => Unknown

theorem ofCode?_eq_none_iff {code : Int} :
    MessageType.ofCode? code = none ↔ code < 1 ∨ 7 < code := by
  constructor
  · intro unknown
    by_contra known
    have cases : code = 1 ∨ code = 2 ∨ code = 3 ∨ code = 4 ∨ code = 5 ∨ code = 6 ∨ code = 7 := by
      omega
    rcases cases with rfl | rfl | rfl | rfl | rfl | rfl | rfl <;> cases unknown
  · intro outside
    cases known : MessageType.ofCode? code with
    | none => rfl
    | some type =>
      have same := MessageType.ofCode?_eq_some_iff.mp known
      cases type <;> simp only [MessageType.code] at same <;> omega

/-- What follows the code in an array of `n` members. -/
inductive Coded (limit n : Nat) (code : Int) : Option Message → Bytes → Prop where
  | none : code < 1 ∨ 7 < code → Coded limit n code none []
  | some {m : Message} {fields extra : List Bytes} : code = typeCode m →
      n = 1 + fields.length + extra.length → Fields limit n m fields → Appended limit m extra →
      Coded limit n code (some m) (fields.flatten ++ extra.flatten)

theorem reads_coded (limit n : Nat) (code : Int) :
    Reads (match MessageType.ofCode? code with
      | none => pure none
      | some type => some <$> readKnown limit .untyped n type) (Coded limit n code) := by
  generalize found : MessageType.ofCode? code = type
  cases type with
  | none =>
    have outside := ofCode?_eq_none_iff.mp found
    refine (Reads.done none).congr fun answer e => ⟨?_, ?_⟩
    · rintro ⟨rfl, rfl⟩
      exact .none outside
    · intro h
      cases h with
      | none => exact ⟨rfl, rfl⟩
      | @some m _ _ same =>
        rw [typeCode_eq] at same
        rw [MessageType.ofCode?_eq_some_iff.mpr same] at found
        cases found
  | some type =>
    have code_eq := MessageType.ofCode?_eq_some_iff.mp found
    refine ((reads_known limit n type).map some).congr fun answer e => ⟨?_, ?_⟩
    · rintro ⟨m, ⟨rfl, fields, extra, count, form, appended, rfl⟩, rfl⟩
      exact .some (code_eq.trans (typeCode_eq m).symm) count form appended
    · intro h
      cases h with
      | none outside =>
        rw [ofCode?_eq_none_iff.mpr outside] at found
        cases found
      | @some m fields extra same count form appended =>
        rw [typeCode_eq] at same
        rw [MessageType.ofCode?_eq_some_iff.mpr same] at found
        exact ⟨m, ⟨Option.some.inj found, fields, extra, count, form, appended, rfl⟩, rfl⟩

theorem reads_message (limit : Nat) : Reads (readMessage limit .untyped) (Answered limit) := by
  have body : ∀ n, Reads (if n = 0 then violation .emptyMessage else do
      let code := (← readInt).toInt
      match MessageType.ofCode? code with
      | none => pure none
      | some type => some <$> readKnown limit .untyped n type) fun answer e => n ≠ 0 ∧
        ∃ (code : Int64) (e₁ e₂ : Bytes), Integer code.toInt e₁ ∧
          Coded limit n code.toInt answer e₂ ∧ e = e₁ ++ e₂ := by
    intro n
    split
    · rename_i empty
      exact (Reads.never _).congr fun answer e => ⟨False.elim, fun h => h.1 empty⟩
    · rename_i some
      exact (reads_int.bind fun code => reads_coded limit n code.toInt).congr
        fun answer e => ⟨fun h => ⟨some, h⟩, fun h => h.2⟩
  refine (reads_arrayHeader.bind body).congr fun answer e => ⟨?_, ?_⟩
  · rintro ⟨n, head, _, hn, ⟨some, code, k, _, hk, coded, rfl⟩, rfl⟩
    cases coded with
    | none outside =>
      rw [List.append_nil]
      exact .mk hn (Nat.pos_of_ne_zero some) hk code.toInt_lt outside
    | some same count form appended =>
      rw [same] at hk
      exact .mk hn count hk form appended
  · intro h
    cases answer with
    | none =>
      obtain @⟨n, code, head, k, hn, positive, hk, small, outside⟩ := h
      have back : (Int64.ofInt code).toInt = code :=
        Int64.toInt_ofInt_of_le (integer_bounds hk).1 small
      refine ⟨n, head, k, hn, ⟨Nat.ne_of_gt positive, .ofInt code, k, [], back.symm ▸ hk,
        .none (back.symm ▸ outside), (List.append_nil k).symm⟩, rfl⟩
    | some m =>
      obtain @⟨n, head, k, fields, extra, hn, count, hk, form, appended⟩ := h
      have back : (Int64.ofInt (typeCode m)).toInt = typeCode m := by
        cases m <;> rfl
      refine ⟨n, head, _, hn, ⟨by omega, .ofInt (typeCode m), k, _, back.symm ▸ hk,
        .some back count form appended, rfl⟩, rfl⟩

end HubPack
