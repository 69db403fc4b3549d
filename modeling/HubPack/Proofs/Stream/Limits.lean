import HubPack.Proofs.Reading.Members
import HubPack.Proofs.RoundTrip
import HubPack.Proofs.Stream.Errors

namespace HubPack

namespace Wire

variable {limit limit' n : Nat} {m : Message}

section Relimit

theorem ArrayOf.relimit {vs : List Value} {e : Bytes} (h : ArrayOf (Within limit) vs e)
    (shallow : ∀ v ∈ vs, v.depth ≤ limit') : ArrayOf (Within limit') vs e := by
  obtain ⟨length, body⟩ := h
  exact .mk length (sequence_and_iff.mpr ⟨(sequence_and_iff.mp body).1, shallow⟩)

theorem Carried.relimit {o : Outcome} {parts : List Bytes} (h : Carried limit o parts)
    (shallow : ∀ v ∈ o.result?, v.depth ≤ limit') : Carried limit' o parts := by
  cases h with
  | error text => exact .error text
  | void => exact .void
  | result within => exact .result ⟨within.1, shallow _ rfl⟩

theorem Fields.relimit {fields : List Bytes} (h : Fields limit n m fields)
    (shallow : ∀ v ∈ m.values, v.depth ≤ limit') : Fields limit' n m fields := by
  cases h with
  | invocation hh hi ht ha hs => exact .invocation hh hi ht (ha.relimit shallow) hs
  | streamInvocation hh hi ht ha hs => exact .streamInvocation hh hi ht (ha.relimit shallow) hs
  | streamItem hh hi hv => exact .streamItem hh hi ⟨hv.1, shallow _ List.mem_cons_self⟩
  | completion hh hi hk hc =>
    exact .completion hh hi hk (hc.relimit fun v kept => shallow v (Option.mem_toList.mpr kept))
  | cancelInvocation hh hi => exact .cancelInvocation hh hi
  | ping => exact .ping
  | close he ha => exact .close he ha

theorem Fields.length_unique {fields fields' : List Bytes} (h : Fields limit n m fields)
    (h' : Fields limit' n m fields') : fields.length = fields'.length := by
  cases h with
  | invocation _ _ _ _ hs =>
    cases h' with
    | invocation _ _ _ _ hs' => simp [slot_length hs, slot_length hs']
  | streamInvocation _ _ _ _ hs =>
    cases h' with
    | streamInvocation _ _ _ _ hs' => simp [slot_length hs, slot_length hs']
  | completion _ _ _ hc =>
    cases h' with
    | completion _ _ _ hc' =>
      have length := carried_length hc
      have length' := carried_length hc'
      simp only [List.length_append, List.length_cons, List.length_nil] at length length' ⊢
      omega
  | close _ ha =>
    cases h' with
    | close _ ha' => simp [slot_length ha, slot_length ha']
  | _ =>
    cases h'
    rfl

end Relimit

/-- The values of a message as it came: those that it keeps, and those in the members behind its
fields, which are dropped. -/
def Brings (m : Message) (extra : List Bytes) (v : Value) : Prop :=
  v ∈ m.values ∨ ∃ e ∈ extra, Encodes v e

section Brings

variable {m' : Message} {code code' tail tail' payload : Bytes}
  {fields fields' extra extra' : List Bytes}

theorem Laid.relimit (h : Laid limit m code fields extra)
    (shallow : ∀ v, Brings m extra v → v.depth ≤ limit') : Laid limit' m code fields extra := by
  obtain ⟨hk, form, each, none⟩ := h
  refine ⟨hk, form.relimit fun v kept => shallow v (.inl kept), fun e mem => ?_, none⟩
  obtain ⟨v, within⟩ := each e mem
  exact ⟨v, within.1, shallow v (.inr ⟨e, mem, within.1⟩)⟩

theorem Laid.depth_le (h : Laid limit m code fields extra) {v : Value}
    (brought : Brings m extra v) : v.depth ≤ limit := by
  rcases brought with kept | ⟨e, mem, form⟩
  · exact depth_le_of_fields h.fields v kept
  · obtain ⟨w, form', within⟩ := h.appended.1 e mem
    obtain ⟨rfl, -⟩ := form.unique form' (x := []) (y := []) rfl
    exact within

theorem Laid.mono (h : Laid limit m code fields extra) (wider : limit ≤ limit') :
    Laid limit' m code fields extra :=
  h.relimit fun _ brought => Nat.le_trans (h.depth_le brought) wider

theorem Payload.answered (h : Payload limit m payload) :
    ∃ e tail, Answered limit (some m) e ∧ payload = e ++ tail := by
  obtain ⟨form, tail⟩ := h
  exact ⟨_, tail, form, rfl⟩

theorem Laid.unique (h : Laid limit m code fields extra)
    (whole : Members (code :: fields ++ extra) tail payload)
    (h' : Laid limit' m' code' fields' extra')
    (whole' : Members (code' :: fields' ++ extra') tail' payload) : m = m' ∧ extra = extra' := by
  have wide := h.mono (Nat.le_max_left limit limit')
  have wide' := h'.mono (Nat.le_max_right limit limit')
  obtain ⟨e, x, form, split⟩ := (payload_iff.mpr ⟨_, _, _, _, wide, whole⟩).answered
  obtain ⟨e', x', form', split'⟩ := (payload_iff.mpr ⟨_, _, _, _, wide', whole'⟩).answered
  obtain ⟨answers, -⟩ := (reads_message _).unique form form' (split.symm.trans split')
  obtain rfl := Option.some.inj answers
  obtain ⟨members, -⟩ := whole.unique whole'
  have count := congrArg List.length members
  have place := h.fields
  have place' := h'.fields
  simp only [List.length_append, List.length_cons] at count
  have total : 1 + fields'.length + extra'.length = 1 + fields.length + extra.length := by omega
  rw [total] at place'
  have length := place.length_unique place'
  exact ⟨rfl, (List.append_inj members (by simp [length])).2⟩

inductive Carries (payload : Bytes) (v : Value) : Prop where
  | mk {limit : Nat} {m : Message} {code tail : Bytes} {fields extra : List Bytes} :
      Laid limit m code fields extra → Members (code :: fields ++ extra) tail payload →
      Brings m extra v → Carries payload v

theorem Payload.limit_iff (h : Payload limit m payload) :
    Payload limit' m payload ↔ ∀ v, Carries payload v → v.depth ≤ limit' := by
  constructor
  · rintro within v ⟨laid, members, brought⟩
    obtain ⟨_, _, _, _, laid', members'⟩ := payload_iff.mp within
    obtain ⟨rfl, rfl⟩ := laid.unique members laid' members'
    exact laid'.depth_le brought
  · intro shallow
    obtain ⟨code, fields, extra, tail, laid, members⟩ := payload_iff.mp h
    have laid' := laid.relimit fun v brought => shallow v (.mk laid members brought)
    exact payload_iff.mpr ⟨code, fields, extra, tail, laid', members⟩

theorem Unknown.carries_nothing {e : Bytes} (h : Unknown e) (tail : Bytes) (v : Value) :
    ¬Carries (e ++ tail) v := by
  rintro @⟨limit, _, _, _, _, _, laid, members, -⟩
  obtain ⟨e', x, form, split⟩ := (payload_iff.mpr ⟨_, _, _, _, laid, members⟩).answered
  have unknown : Answered limit none e := h
  have answers := (reads_message _).unique unknown form split
  cases answers.1

end Brings

end Wire

open Wire

namespace Framing

variable {f f' : Framing}

theorem locate_incomplete (wider : f.maxPayload ≤ f'.maxPayload) {src : Bytes} {n : Nat}
    (h : f.locate src = .error (.incompleteFrame n)) :
    f'.locate src = .error (.incompleteFrame n) := by
  rw [locate] at h ⊢
  split at h
  · exact h
  · exact h
  · simp only at h ⊢
    split at h
    · cases h
    · rename_i small
      rw [if_neg (by omega)]
      exact h

end Framing

namespace Protocol

variable {p p' : Protocol} {binder : Binder}

structure Narrower (p p' : Protocol) : Prop where
  size : p.framing.maxPayload ≤ p'.framing.maxPayload
  depth : p.maxNestingDepth ≤ p'.maxNestingDepth

section Payload

variable {payload : Bytes} {answer : Option Message}

theorem ofPayload_restricts (h : p.Narrower p') (binder : Binder) (payload : Bytes) :
    p.ofPayload binder payload = p'.ofPayload binder payload ∨
      p.ofPayload binder payload = .error (.malformedValue (.nesting p.maxNestingDepth)) := by
  rw [ofPayload, ofPayload]
  rcases @restricts_message _ _ binder h.depth payload with same | ⟨left, failed⟩
  · rw [same]
    exact .inl rfl
  · rw [failed]
    exact .inr rfl

theorem ofPayload_mono (h : p.Narrower p') (read : p.ofPayload binder payload = .ok answer) :
    p'.ofPayload binder payload = .ok answer := by
  rcases ofPayload_restricts h binder payload with same | failed
  · exact same.symm.trans read
  · rw [failed] at read
    cases read

theorem depth_le_of_ofPayload (read : p.ofPayload binder payload = .ok answer) :
    ∀ v, Carries payload v → v.depth ≤ p.maxNestingDepth := by
  obtain ⟨raw, e, tail, form, rfl, -⟩ := ofPayload_eq_ok_iff_answered.mp read
  cases raw with
  | none => exact fun v carried => absurd carried (Unknown.carries_nothing form tail v)
  | some m =>
    have whole : Payload p.maxNestingDepth m (e ++ tail) := .mk form tail
    exact whole.limit_iff.mp whole

theorem ofPayload_of_shallow (read : p'.ofPayload binder payload = .ok answer)
    (shallow : ∀ v, Carries payload v → v.depth ≤ p.maxNestingDepth) :
    p.ofPayload binder payload = .ok answer := by
  obtain ⟨raw, e, tail, form, rfl, rfl⟩ := ofPayload_eq_ok_iff_answered.mp read
  cases raw with
  | none => exact ofPayload_eq_ok_iff_answered.mpr ⟨none, e, tail, form, rfl, rfl⟩
  | some m =>
    have whole : Payload p'.maxNestingDepth m (e ++ tail) := .mk form tail
    obtain ⟨e', x, within, split⟩ := (whole.limit_iff.mpr shallow).answered
    exact ofPayload_eq_ok_iff_answered.mpr ⟨some m, e', x, within, split, rfl⟩

/-- What a payload that is read within wide limits carries decides how narrower ones answer. -/
theorem ofPayload_narrower (h : p.Narrower p') (read : p'.ofPayload binder payload = .ok answer) :
    (∃ v, Carries payload v ∧ p.maxNestingDepth < v.depth) ∧
        p.ofPayload binder payload = .error (.malformedValue (.nesting p.maxNestingDepth)) ∨
      (∀ v, Carries payload v → v.depth ≤ p.maxNestingDepth) ∧
        p.ofPayload binder payload = .ok answer := by
  by_cases shallow : ∀ v, Carries payload v → v.depth ≤ p.maxNestingDepth
  · exact .inr ⟨shallow, ofPayload_of_shallow read shallow⟩
  · refine .inl ⟨by simpa using shallow, ?_⟩
    rcases ofPayload_restricts h binder payload with same | failed
    · exact absurd (depth_le_of_ofPayload (same.trans read)) shallow
    · exact failed

end Payload

section Narrower

theorem first_narrower (h : p.Narrower p') {src : Bytes} {answer : Option Message} {used : Nat}
    (read : p'.first binder src = .ok (answer, used)) : ∃ payload frame rest,
      Frame p'.framing.maxPayload payload frame ∧ src = frame ++ rest ∧
        (p.framing.maxPayload < payload.length ∧
            p.first binder src = .error (.frameTooLarge payload.length p.framing.maxPayload) ∨
          payload.length ≤ p.framing.maxPayload ∧
            ((∃ v, Carries payload v ∧ p.maxNestingDepth < v.depth) ∧
                p.first binder src =
                  .error (.malformedValue (.nesting p.maxNestingDepth)) ∨
              (∀ v, Carries payload v → v.depth ≤ p.maxNestingDepth) ∧
                p.first binder src = .ok (answer, used))) := by
  obtain ⟨payload, frame, rest, framed, rfl, rfl, inner⟩ := exists_frame_of_first read
  refine ⟨payload, frame, rest, framed, rfl, ?_⟩
  obtain ⟨length, -⟩ := framed
  rcases Nat.lt_or_ge p.framing.maxPayload payload.length with long | small
  · rw [List.append_assoc]
    exact .inl ⟨long, first_of_locate_error (Framing.locate_long length long _)⟩
  · have framed : Frame p.framing.maxPayload payload _ := .mk length small
    refine .inr ⟨small, ?_⟩
    rw [first_frame framed]
    rcases ofPayload_narrower h inner with ⟨deep, failed⟩ | ⟨shallow, same⟩
    · rw [failed]
      exact .inl ⟨deep, rfl⟩
    · rw [same]
      exact .inr ⟨shallow, rfl⟩

theorem first_mono (h : p.Narrower p') {src : Bytes} {answer : Option Message} {used : Nat}
    (read : p.first binder src = .ok (answer, used)) :
    p'.first binder src = .ok (answer, used) := by
  obtain ⟨payload, frame, rest, ⟨length, small⟩, rfl, rfl, inner⟩ := exists_frame_of_first read
  have framed : Frame p'.framing.maxPayload payload _ := .mk length (Nat.le_trans small h.size)
  rw [first_frame framed, ofPayload_mono h inner]
  rfl

theorem first_incomplete_mono (h : p.Narrower p') {src : Bytes} {n : Nat}
    (waits : p.first binder src = .error (.incompleteFrame n)) :
    p'.first binder src = .error (.incompleteFrame n) :=
  first_incomplete_iff.mpr (Framing.locate_incomplete h.size (first_incomplete_iff.mp waits))

theorem all_mono (h : p.Narrower p') {src : Bytes} {messages : List Message} {used : Nat}
    (read : p.all binder src = .ok (messages, used)) :
    p'.all binder src = .ok (messages, used) := by
  -- on the length of the buffer, as the first frame is not empty
  induction size : src.length using Nat.strongRecOn generalizing src messages used with
  | ind n ih =>
    subst size
    cases front : p.first binder src with
    | ok found =>
      obtain ⟨answer, length⟩ := found
      have shorter := first_used front
      rw [all_front front] at read
      rw [all_front (first_mono h front)]
      cases later : p.all binder (src.drop length) with
      | error e =>
        rw [later] at read
        cases read
      | ok found =>
        rw [later] at read
        rw [ih _ (by rw [List.length_drop]; omega) later rfl]
        exact read
    | error e =>
      by_cases waits : ∃ n, e = .incompleteFrame n
      · obtain ⟨n, rfl⟩ := waits
        rw [all_incomplete front] at read
        rw [all_incomplete (first_incomplete_mono h front)]
        exact read
      · rw [all_error front (not_exists.mp waits)] at read
        cases read

theorem appendAs_mono (h : p.Narrower p') {headers : List (String × String)} {m : Message}
    {dst dst' : Bytes} (sent : p.appendAs headers m dst = .ok dst') :
    p'.appendAs headers m dst = .ok dst' := by
  rw [appendAs] at sent ⊢
  cases written : m.payloadAs headers with
  | error e =>
    rw [written] at sent
    cases sent
  | ok payload =>
    rw [written] at sent
    obtain ⟨small, rfl⟩ := Framing.append_eq_ok_iff.mp sent
    exact Framing.append_eq_ok_iff.mpr ⟨Nat.le_trans small h.size, rfl⟩

theorem narrower_ofConfig {c c' : Config} (size : c.maxFrameSize ≤ c'.maxFrameSize)
    (depth : c.maxNestingDepth ≤ c'.maxNestingDepth) : (ofConfig c).Narrower (ofConfig c') :=
  ⟨by simp only [ofConfig, Framing.ofMax]; omega, depth⟩

/-- Raising the limits of a connection changes nothing that was read or sent within the old ones,
and no wait for more bytes. What is read only since then is a frame whose announced length was too
great, or one with a value that was nested too deep. -/
theorem limits_only_restrict {c c' : Config} (size : c.maxFrameSize ≤ c'.maxFrameSize)
    (depth : c.maxNestingDepth ≤ c'.maxNestingDepth) (binder : Binder) (src : Bytes) :
    (∀ found, (ofConfig c).all binder src = .ok found →
      (ofConfig c').all binder src = .ok found) ∧
    (∀ n, (ofConfig c).first binder src = .error (.incompleteFrame n) →
      (ofConfig c').first binder src = .error (.incompleteFrame n)) ∧
    (∀ found, (ofConfig c').first binder src = .ok found → ∃ payload frame rest,
      Frame (min c'.maxFrameSize LengthPrefix.maxLength) payload frame ∧ src = frame ++ rest ∧
        (min c.maxFrameSize LengthPrefix.maxLength < payload.length ∧
            (ofConfig c).first binder src = .error
              (.frameTooLarge payload.length (min c.maxFrameSize LengthPrefix.maxLength)) ∨
          payload.length ≤ min c.maxFrameSize LengthPrefix.maxLength ∧
            ((∃ v, Carries payload v ∧ c.maxNestingDepth < v.depth) ∧
                (ofConfig c).first binder src =
                  .error (.malformedValue (.nesting c.maxNestingDepth)) ∨
              (∀ v, Carries payload v → v.depth ≤ c.maxNestingDepth) ∧
                (ofConfig c).first binder src = .ok found))) ∧
    ∀ headers m dst dst', (ofConfig c).appendAs headers m dst = .ok dst' →
      (ofConfig c').appendAs headers m dst = .ok dst' := by
  have narrower := narrower_ofConfig size depth
  refine ⟨?_, ?_, ?_, ?_⟩
  · intro found read
    exact all_mono narrower read
  · intro n waits
    exact first_incomplete_mono narrower waits
  · intro found read
    exact first_narrower narrower read
  · intro headers m dst dst' sent
    exact appendAs_mono narrower sent

/-- A ping, the beginning of a frame, a ping with an array that it drops, and one that is longer. -/
theorem limits_only_restrict_pings :
    ((ofConfig ⟨100, 1⟩).all .untyped [2, 0x91, 6, 3] = .ok ([.ping], 3) ∧
      (ofConfig ⟨100, 1⟩).first .untyped [3, 0x92] = .error (.incompleteFrame 2)) ∧
    (∃ payload frame rest, [3, 0x92, 6, 0x90] = frame ++ rest ∧ Frame 100 payload frame ∧
      ∃ v, Carries payload v ∧ 0 < v.depth) ∧
    (∃ payload frame rest, [4, 0x93, 6, 1, 1] = frame ++ rest ∧ Frame 100 payload frame ∧
      3 < payload.length) ∧
    (ofConfig ⟨100, 1⟩).appendAs [] .ping [7] = .ok [7, 2, 0x91, 6] := by
  have limits := @limits_only_restrict ⟨3, 0⟩ ⟨100, 1⟩ (by decide) (by decide) .untyped
  have read : (ofConfig ⟨3, 0⟩).all .untyped [2, 0x91, 6, 3] = .ok ([.ping], 3) := by cbv
  have waits : (ofConfig ⟨3, 0⟩).first .untyped [3, 0x92] = .error (.incompleteFrame 2) := by cbv
  have deep : (ofConfig ⟨3, 0⟩).first .untyped [3, 0x92, 6, 0x90] =
      .error (.malformedValue (.nesting 0)) := by cbv
  have deep' : (ofConfig ⟨100, 1⟩).first .untyped [3, 0x92, 6, 0x90] = .ok (some .ping, 4) := by cbv
  have long : (ofConfig ⟨3, 0⟩).first .untyped [4, 0x93, 6, 1, 1] =
      .error (.frameTooLarge 4 3) := by cbv
  have long' : (ofConfig ⟨100, 1⟩).first .untyped [4, 0x93, 6, 1, 1] =
      .ok (some .ping, 5) := by cbv
  have sent : (ofConfig ⟨3, 0⟩).appendAs [] .ping [7] = .ok [7, 2, 0x91, 6] := by cbv
  refine ⟨⟨(limits _).1 _ read, (limits _).2.1 _ waits⟩, ?_, ?_, (limits []).2.2.2 _ _ _ _ sent⟩
  · obtain ⟨payload, frame, rest, framed, split, answer⟩ := (limits _).2.2.1 _ deep'
    rw [deep] at answer
    rcases answer with ⟨-, other⟩ | ⟨-, ⟨carried, -⟩ | ⟨-, other⟩⟩
    · cases other
    · exact ⟨payload, frame, rest, split, framed, carried⟩
    · cases other
  · obtain ⟨payload, frame, rest, framed, split, answer⟩ := (limits _).2.2.1 _ long'
    rw [long] at answer
    rcases answer with ⟨above, -⟩ | ⟨-, ⟨-, other⟩ | ⟨-, other⟩⟩
    · exact ⟨payload, frame, rest, split, framed, above⟩
    · cases other
    · cases other

end Narrower

end Protocol

end HubPack
