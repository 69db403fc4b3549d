import HubPack.Proofs.Reading.Protocol

/-!
A buffer from its front: a run of whole frames, and then what no read gets past, be it the
beginning of a frame or an error.
-/
namespace HubPack.Protocol
open Wire

variable {p : Protocol} {binder : Binder}

/-- A whole frame, and what a read answers to it: a message, or none if its type is unknown. -/
def Holds (p : Protocol) (answer : Option Message) (frame : Bytes) : Prop :=
  ∃ e tail, Answered p.maxNestingDepth answer e ∧ Frame p.framing.maxPayload (e ++ tail) frame

def Delivers (p : Protocol) (binder : Binder) (messages : List Message) (frames : Bytes) : Prop :=
  ∃ answers, Sequence p.Holds answers frames ∧
    messages = answers.reduceOption.map (Message.bound binder)

theorem first_of_holds (binder : Binder) {answer : Option Message} {frame : Bytes}
    (h : p.Holds answer frame) (rest : Bytes) : p.first binder (frame ++ rest) =
      .ok (answer.map (Message.bound binder), frame.length) := by
  obtain ⟨e, tail, form, framed⟩ := h
  rw [first_frame framed, ofPayload_eq_ok_iff_answered.mpr ⟨answer, e, tail, form, rfl, rfl⟩]
  rfl

theorem exists_holds_of_first {src : Bytes} {answer : Option Message} {used : Nat}
    (h : p.first binder src = .ok (answer, used)) : ∃ raw frame rest,
      p.Holds raw frame ∧ answer = raw.map (Message.bound binder) ∧ src = frame ++ rest ∧
        used = frame.length := by
  obtain ⟨payload, frame, rest, framed, split, length, read⟩ := exists_frame_of_first h
  obtain ⟨raw, e, tail, form, rfl, bound⟩ := ofPayload_eq_ok_iff_answered.mp read
  exact ⟨raw, frame, rest, ⟨e, tail, form, framed⟩, bound, split, length⟩

theorem first_eq_error_iff {src : Bytes} {e : WireError} :
    p.first binder src = .error e ↔ p.first .untyped src = .error e := by
  rw [first_eq]
  cases p.first .untyped src with
  | error f => exact Iff.rfl
  | ok found => exact ⟨nofun, nofun⟩

theorem exists_frames (p : Protocol) (src : Bytes) : ∃ answers frames rest e,
    Sequence p.Holds answers frames ∧ src = frames ++ rest ∧
      ∀ binder, p.first binder rest = .error e := by
  -- on the length of the buffer, as no frame is empty
  induction size : src.length using Nat.strongRecOn generalizing src with
  | ind n ih =>
    subst size
    cases front : p.first .untyped src with
    | error e => exact ⟨[], [], src, e, .nil, rfl, fun _ => first_eq_error_iff.mpr front⟩
    | ok found =>
      have shorter := first_used front
      obtain ⟨raw, frame, later, holds, -, rfl, used⟩ := exists_holds_of_first front
      obtain ⟨answers, frames, rest, e, framed, rfl, stops⟩ :=
        ih later.length (by rw [List.length_append]; omega) later rfl
      exact ⟨raw :: answers, frame ++ frames, rest, e, .cons holds framed,
        (List.append_assoc ..).symm, stops⟩

theorem all_incomplete {src : Bytes} {n : Nat}
    (h : p.first binder src = .error (.incompleteFrame n)) : p.all binder src = .ok ([], 0) := by
  rw [all]
  split <;> rename_i found <;> rw [h] at found <;> cases found
  rename_i other
  exact absurd rfl (other n)

theorem all_error {src : Bytes} {e : WireError} (h : p.first binder src = .error e)
    (fatal : ∀ n, e ≠ .incompleteFrame n) : p.all binder src = .error e := by
  rw [all]
  split <;> rename_i found <;> rw [h] at found <;> cases found
  · exact absurd rfl (fatal _)
  · rfl

theorem all_front {src : Bytes} {answer : Option Message} {used : Nat}
    (h : p.first binder src = .ok (answer, used)) : p.all binder src =
      (p.all binder (src.drop used)).map fun (messages, n) =>
        (answer.toList ++ messages, used + n) := by
  rw [all]
  split <;> rename_i found <;> rw [h] at found <;> cases found
  rfl

theorem Delivers.all {messages : List Message} {frames : Bytes}
    (d : p.Delivers binder messages frames) (rest : Bytes) : p.all binder (frames ++ rest) =
      (p.all binder rest).map fun (later, n) => (messages ++ later, frames.length + n) := by
  obtain ⟨answers, framed, rfl⟩ := d
  induction framed with
  | nil =>
    rw [List.nil_append]
    cases Protocol.all p binder rest with
    | error e => rfl
    | ok found => simp [Except.map]
  | @cons answer answers frame frames holds _ ih =>
    rw [List.append_assoc, all_front (first_of_holds binder holds _), List.drop_left, ih]
    cases Protocol.all p binder rest with
    | error e => rfl
    | ok found => cases answer <;> simp [Except.map, Nat.add_assoc]

/-- A read of all frames stops where only the beginning of a frame is left, or at an error. -/
theorem all_stops (p : Protocol) (binder : Binder) (src : Bytes) : ∃ messages frames rest,
    p.Delivers binder messages frames ∧ src = frames ++ rest ∧
      ((∃ n, p.first binder rest = .error (.incompleteFrame n) ∧
          p.all binder src = .ok (messages, frames.length)) ∨
        ∃ e, p.first binder rest = .error e ∧ (∀ n, e ≠ .incompleteFrame n) ∧
          p.all binder src = .error e) := by
  obtain ⟨answers, frames, rest, e, framed, rfl, stops⟩ := exists_frames p src
  have d : p.Delivers binder _ frames := ⟨answers, framed, rfl⟩
  refine ⟨_, frames, rest, d, rfl, ?_⟩
  rw [d.all]
  by_cases waits : ∃ n, e = .incompleteFrame n
  · obtain ⟨n, rfl⟩ := waits
    refine .inl ⟨n, stops binder, ?_⟩
    rw [all_incomplete (stops binder)]
    simp [Except.map]
  · have fatal := not_exists.mp waits
    refine .inr ⟨e, stops binder, fatal, ?_⟩
    rw [all_error (stops binder) fatal]
    rfl

end HubPack.Protocol
