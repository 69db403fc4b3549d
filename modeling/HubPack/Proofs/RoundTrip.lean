import HubPack.Proofs.Reading.Limit
import HubPack.Proofs.Reading.Protocol
import HubPack.Proofs.Writing.Message

namespace HubPack
open Wire

theorem within_of_fields {limit n : Nat} {m : Message} {fields : List Bytes}
    (h : Fields limit n m fields) : ∀ v ∈ m.values, ∃ e, Within limit v e := by
  have members : ∀ {vs : List Value} {e : Bytes}, ArrayOf (Within limit) vs e →
      ∀ v ∈ vs, ∃ e, Within limit v e := by
    rintro vs _ ⟨_, body⟩
    exact body.forall_mem
  cases h with
  | invocation _ _ _ arguments _ => exact members arguments
  | streamInvocation _ _ _ arguments _ => exact members arguments
  | streamItem _ _ item => simpa [Message.values] using ⟨_, item⟩
  | @completion m _ _ _ _ _ _ _ carried =>
    obtain ⟨headers, id, outcome⟩ := m
    cases carried with
    | result v => simpa [Message.values, Outcome.result?] using ⟨_, v⟩
    | _ => exact nofun
  | _ => exact nofun

theorem depth_le_of_fields {limit n : Nat} {m : Message} {fields : List Bytes}
    (h : Fields limit n m fields) : ∀ v ∈ m.values, v.depth ≤ limit := by
  intro v mem
  obtain ⟨e, within⟩ := within_of_fields h v mem
  exact within.2

namespace Protocol

variable {p : Protocol} {binder : Binder} {m : Message} {payload : Bytes}

theorem ofPayload_of_represents (h : Represents p.maxNestingDepth m payload) :
    p.ofPayload binder payload = .ok (some (m.bound binder)) := by
  have plain : Payload p.maxNestingDepth m payload := by
    simpa using Payload.mk h []
  rw [ofPayload_eq, ofPayload_untyped_eq_some_iff.mpr plain]
  rfl

theorem ofPayload_of_deep {high : Nat} (h : Represents high m payload)
    (deep : ∃ v ∈ m.values, p.maxNestingDepth < v.depth) :
    p.ofPayload binder payload = .error (.malformedValue (.nesting p.maxNestingDepth)) := by
  obtain ⟨v, known, deeper⟩ := deep
  have bound : p.maxNestingDepth ≤ high := by
    obtain ⟨_, _, _, fields, _⟩ := h
    have := depth_le_of_fields fields v known
    omega
  have read := (reads_message high).complete (a := some m) h []
  rw [List.append_nil] at read
  have failed : ∃ rest, readMessage p.maxNestingDepth .untyped payload =
      .error (.malformedValue (.nesting p.maxNestingDepth)) rest := by
    rcases restricts_message bound payload with same | failed
    · obtain ⟨e, ⟨_, _, _, fields, _⟩, _⟩ :=
        (reads_message p.maxNestingDepth).sound (same.trans read)
      have := depth_le_of_fields fields v known
      omega
    · exact failed
  obtain ⟨rest, failed⟩ := failed
  rw [ofPayload_eq, ofPayload, failed]
  rfl

theorem appendAs_eq_ok_iff {headers : List (String × String)} {dst dst' : Bytes} :
    p.appendAs headers m dst = .ok dst' ↔
      ∃ frame, p.appendAs headers m [] = .ok frame ∧ dst' = dst ++ frame := by
  have each (dst dst' : Bytes) : p.appendAs headers m dst = .ok dst' ↔ ∃ payload,
      m.payloadAs headers = .ok payload ∧ p.framing.append payload dst = .ok dst' := by
    rw [appendAs]
    cases m.payloadAs headers with
    | error e => exact ⟨nofun, fun ⟨_, h, _⟩ => nomatch h⟩
    | ok payload => exact ⟨fun h => ⟨payload, rfl, h⟩, fun ⟨_, same, h⟩ => by cases same; exact h⟩
  simp only [each, Framing.append_eq_ok_iff, List.nil_append]
  constructor
  · rintro ⟨payload, written, small, rfl⟩
    exact ⟨_, ⟨payload, written, small, rfl⟩, rfl⟩
  · rintro ⟨_, ⟨payload, written, small, rfl⟩, rfl⟩
    exact ⟨payload, written, small, rfl⟩

theorem frame_of_appendAs {headers : List (String × String)} {frame : Bytes}
    (h : p.appendAs headers m [] = .ok frame) : ∃ payload,
      Frame p.framing.maxPayload payload frame ∧ (m.writeAs headers).Gives payload := by
  cases written : m.payloadAs headers with
  | error e =>
    rw [appendAs, written] at h
    cases h
  | ok payload =>
    rw [appendAs, written] at h
    obtain ⟨frame, rfl, framed⟩ := Framing.append_frame h
    have most := p.framing.le_maxLength
    rw [LengthPrefix.maxLength] at most
    refine ⟨payload, framed, payloadAs_gives written ?_⟩
    obtain ⟨_, bound⟩ := framed
    omega

theorem first_of_appendAs (binder : Binder) {headers : List (String × String)} {frame : Bytes}
    (order : headers.Perm m.headerEntries) (shallow : ∀ v ∈ m.values, v.depth ≤ p.maxNestingDepth)
    (sent : p.appendAs headers m [] = .ok frame) (x : Bytes) :
    p.first binder (frame ++ x) = .ok (some (m.normalize.bound binder), frame.length) := by
  obtain ⟨payload, framed, written⟩ := frame_of_appendAs sent
  rw [first_frame framed, ofPayload_of_represents (message_written order shallow written)]
  rfl

/-- A message that was written, in whatever order of its headers, is read back from its frame
before any bytes, unless it holds a value that is too deep for the reader. -/
theorem round_trip (p : Protocol) (binder : Binder) (m : Message)
    {headers : List (String × String)} {dst dst' : Bytes}
    (order : headers.Perm m.headerEntries) (sent : p.appendAs headers m dst = .ok dst') :
    ∃ frame, dst' = dst ++ frame ∧ ∀ x,
      ((∀ v ∈ m.values, v.depth ≤ p.maxNestingDepth) →
        p.first binder (frame ++ x) =
          .ok (some (m.normalize.bound binder), frame.length)) ∧
      ((∃ v ∈ m.values, p.maxNestingDepth < v.depth) →
        p.first binder (frame ++ x) =
          .error (.malformedValue (.nesting p.maxNestingDepth))) := by
  obtain ⟨frame, alone, rfl⟩ := appendAs_eq_ok_iff.mp sent
  refine ⟨frame, rfl, fun x => ⟨fun shallow => ?_, fun deep => ?_⟩⟩
  · exact first_of_appendAs binder order shallow alone x
  · obtain ⟨payload, framed, written⟩ := frame_of_appendAs alone
    have all := Value.depthItems_le_iff.mp (Nat.le_refl (Value.depthItems m.values))
    have deep' : ∃ v ∈ m.normalize.values, p.maxNestingDepth < v.depth := by
      obtain ⟨v, known, deeper⟩ := deep
      rw [Message.values_normalize]
      exact ⟨_, List.mem_map_of_mem known, by rwa [Value.depth_normalize]⟩
    rw [first_frame framed, ofPayload_of_deep (message_written order all written) deep']
    rfl

def sample (argument : Value) : Message :=
  .invocation
    { headers := .ofList [("a", "y"), ("b", "x")], target := "t",
      arguments := [argument, .array []], streamIds := some [] }

theorem round_trip_sample :
    (∃ frame, ∀ x, (ofConfig ⟨100, 1⟩).first ⟨fun _ => [.float], fun _ => none, fun _ => none⟩
      (frame ++ x) = .ok (some (sample (.float (.ofInt 5))), frame.length)) ∧
    ∃ frame, ∀ x, (ofConfig ⟨100, 0⟩).first .untyped (frame ++ x) =
      .error (.malformedValue (.nesting 0)) := by
  have order : [("b", "x"), ("a", "y")].Perm (sample (.uint 5)).headerEntries := by decide
  have sent (limit : Nat) : (ofConfig ⟨100, limit⟩).appendAs [("b", "x"), ("a", "y")]
      (sample (.uint 5)) [] = .ok ([18, 0x96, 1, 0x82, 0xa1, 98, 0xa1, 120, 0xa1, 97, 0xa1, 121,
        0xc0, 0xa1, 116, 0x92, 5, 0x90, 0x90]) := by
    cbv
  constructor
  · obtain ⟨frame, -, read⟩ := round_trip (ofConfig ⟨100, 1⟩)
      ⟨fun _ => [.float], fun _ => none, fun _ => none⟩ (sample (.uint 5)) order (sent 1)
    refine ⟨frame, fun x => (read x).1 ?_⟩
    simp [sample, Message.values, Value.depth, Value.depthItems, ofConfig]
  · obtain ⟨frame, -, read⟩ := round_trip (ofConfig ⟨100, 0⟩) .untyped (sample (.uint 5)) order
      (sent 0)
    refine ⟨frame, fun x => (read x).2 ⟨.array [], ?_, ?_⟩⟩
    · simp [sample, Message.values]
    · simp [Value.depth, ofConfig]

end Protocol

end HubPack
