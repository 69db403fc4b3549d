import HubPack.Protocol
import HubPack.Proofs.Binding
import HubPack.Proofs.Reading.Frame
import HubPack.Proofs.Reading.Message

namespace HubPack.Protocol
open Wire

variable {p : Protocol} {binder : Binder}

theorem ofPayload_eq_ok_iff {payload : Bytes} {answer : Option Message} :
    p.ofPayload binder payload = .ok answer ↔
      ∃ tail, readMessage p.maxNestingDepth binder payload = .ok answer tail := by
  rw [ofPayload]
  split
  · rename_i read
    constructor
    · intro h
      cases h
      exact ⟨_, read⟩
    · rintro ⟨tail, same⟩
      rw [read] at same
      cases same
      rfl
  · rename_i read
    exact ⟨nofun, fun ⟨_, same⟩ => nomatch read.symm.trans same⟩

theorem ofPayload_eq (p : Protocol) (binder : Binder) (payload : Bytes) :
    p.ofPayload binder payload =
      (p.ofPayload .untyped payload).map (Option.map (Message.bound binder)) := by
  rw [ofPayload, ofPayload, readMessage_eq, ← bind_pure_comp]
  cases read : readMessage p.maxNestingDepth .untyped payload with
  | ok answer tail =>
    rw [bind_of_ok read]
    rfl
  | error e tail =>
    rw [bind_of_error read]
    rfl

theorem first_nil : p.first binder [] = .error (.incompleteFrame 1) := rfl

theorem first_of_locate_error {src : Bytes} {e : WireError} (h : p.framing.locate src = .error e) :
    p.first binder src = .error e := by
  rw [first, h]
  rfl

theorem first_of_locate {src : Bytes} {span : Span} (h : p.framing.locate src = .ok span) :
    p.first binder src =
      (p.ofPayload binder (span.of src)).map fun message => (message, span.stop) := by
  rw [first, h]
  change (do
    let message ← p.ofPayload binder (span.of src)
    pure (message, span.stop)) = _
  cases p.ofPayload binder (span.of src) <;> rfl

theorem first_frame {payload frame : Bytes} (h : Frame p.framing.maxPayload payload frame)
    (rest : Bytes) : p.first binder (frame ++ rest) =
      (p.ofPayload binder payload).map fun message => (message, frame.length) := by
  obtain ⟨span, located, stop, payload_eq⟩ := Framing.locate_complete h rest
  rw [first_of_locate located, payload_eq, stop]

theorem first_eq (p : Protocol) (binder : Binder) (src : Bytes) :
    p.first binder src = (p.first .untyped src).map fun (answer, used) =>
      (answer.map (Message.bound binder), used) := by
  cases located : p.framing.locate src with
  | error e =>
    rw [first_of_locate_error located, first_of_locate_error located]
    rfl
  | ok span =>
    rw [first_of_locate located, first_of_locate located, ofPayload_eq]
    cases p.ofPayload .untyped (span.of src) <;> rfl

theorem exists_frame_of_first {src : Bytes} {answer : Option Message} {used : Nat}
    (h : p.first binder src = .ok (answer, used)) : ∃ payload frame rest,
      Frame p.framing.maxPayload payload frame ∧ src = frame ++ rest ∧ used = frame.length ∧
        p.ofPayload binder payload = .ok answer := by
  cases located : p.framing.locate src with
  | error e =>
    rw [first_of_locate_error located] at h
    cases h
  | ok span =>
    obtain ⟨frame, rest, framed, split, -⟩ := Framing.locate_sound located
    generalize span.of src = payload at framed
    subst split
    rw [first_frame framed] at h
    cases read : p.ofPayload binder payload with
    | error e =>
      rw [read] at h
      cases h
    | ok message =>
      rw [read] at h
      cases h
      exact ⟨payload, frame, rest, framed, rfl, rfl, read⟩

theorem ofPayload_untyped_eq_ok_iff {payload : Bytes} {answer : Option Message} :
    p.ofPayload .untyped payload = .ok answer ↔
      ∃ e tail, Answered p.maxNestingDepth answer e ∧ payload = e ++ tail := by
  have reads := reads_message p.maxNestingDepth
  rw [ofPayload_eq_ok_iff]
  constructor
  · rintro ⟨tail, read⟩
    obtain ⟨e, form, rfl⟩ := reads.sound read
    exact ⟨e, tail, form, rfl⟩
  · rintro ⟨e, tail, form, rfl⟩
    exact ⟨tail, reads.complete form tail⟩

theorem ofPayload_eq_ok_iff_answered {payload : Bytes} {answer : Option Message} :
    p.ofPayload binder payload = .ok answer ↔ ∃ raw e tail,
      Answered p.maxNestingDepth raw e ∧ payload = e ++ tail ∧
        answer = raw.map (Message.bound binder) := by
  rw [ofPayload_eq]
  constructor
  · intro h
    cases plain : p.ofPayload .untyped payload with
    | error e =>
      rw [plain] at h
      cases h
    | ok raw =>
      rw [plain] at h
      cases h
      obtain ⟨e, tail, form, split⟩ := ofPayload_untyped_eq_ok_iff.mp plain
      exact ⟨raw, e, tail, form, split, rfl⟩
  · rintro ⟨raw, e, tail, form, split, rfl⟩
    rw [ofPayload_untyped_eq_ok_iff.mpr ⟨e, tail, form, split⟩]
    rfl

theorem ofPayload_untyped_eq_some_iff {payload : Bytes} {m : Message} :
    p.ofPayload .untyped payload = .ok (some m) ↔ Payload p.maxNestingDepth m payload := by
  rw [ofPayload_untyped_eq_ok_iff]
  constructor
  · rintro ⟨e, tail, form, rfl⟩
    exact .mk form tail
  · rintro ⟨form, tail⟩
    exact ⟨_, tail, form, rfl⟩

/-- A buffer has a message at its front exactly if it begins with a frame within the limit whose
payload is a form of that message, followed by any bytes; it takes the bytes of that frame. -/
theorem first_untyped_eq_some_iff {src : Bytes} {m : Message} {used : Nat} :
    p.first .untyped src = .ok (some m, used) ↔ ∃ payload frame rest,
      Frame p.framing.maxPayload payload frame ∧ src = frame ++ rest ∧ used = frame.length ∧
        Payload p.maxNestingDepth m payload := by
  constructor
  · intro h
    obtain ⟨payload, frame, rest, framed, split, length, read⟩ := exists_frame_of_first h
    exact ⟨payload, frame, rest, framed, split, length, ofPayload_untyped_eq_some_iff.mp read⟩
  · rintro ⟨payload, frame, rest, framed, rfl, rfl, form⟩
    rw [first_frame framed, ofPayload_untyped_eq_some_iff.mpr form]
    rfl

theorem first_eq_some_iff {payload frame : Bytes} (h : Frame p.framing.maxPayload payload frame)
    (rest : Bytes) {m : Message} {used : Nat} :
    p.first binder (frame ++ rest) = .ok (some m, used) ↔
      ∃ raw, Payload p.maxNestingDepth raw payload ∧ m = raw.bound binder ∧
        used = frame.length := by
  rw [first_frame h]
  constructor
  · intro read
    cases inner : p.ofPayload binder payload with
    | error e =>
      rw [inner] at read
      cases read
    | ok answer =>
      rw [inner] at read
      cases read
      obtain ⟨raw, e, tail, form, rfl, bound⟩ := ofPayload_eq_ok_iff_answered.mp inner
      obtain ⟨raw, rfl, rfl⟩ := Option.map_eq_some_iff.mp bound.symm
      exact ⟨raw, .mk form tail, rfl, rfl⟩
  · rintro ⟨raw, ⟨form, tail⟩, rfl, rfl⟩
    rw [ofPayload_eq_ok_iff_answered.mpr ⟨some raw, _, tail, form, rfl, rfl⟩]
    rfl

theorem first_of_read_error {payload frame left : Bytes} {e : WireError}
    (h : Frame p.framing.maxPayload payload frame)
    (failed : readMessage p.maxNestingDepth binder payload = .error e left) (rest : Bytes) :
    p.first binder (frame ++ rest) = .error e.insideFrame := by
  rw [first_frame h, ofPayload, failed]
  rfl

end HubPack.Protocol
