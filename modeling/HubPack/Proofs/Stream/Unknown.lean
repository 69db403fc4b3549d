import HubPack.Proofs.Stream.Frames

namespace HubPack.Protocol
open Wire

variable {p : Protocol} {binder : Binder}

/-- The second buffer is the first with frames of unknown types put between its frames. A frame of
the first may also be one in error, and what follows the last of them need not be a frame. -/
inductive Interspersed (p : Protocol) : Bytes → Bytes → Prop where
  | rest (src : Bytes) : Interspersed p src src
  | frame {payload frame src dst : Bytes} : Frame p.framing.maxPayload payload frame →
      Interspersed p src dst → Interspersed p (frame ++ src) (frame ++ dst)
  | unknown {frame src dst : Bytes} : p.Holds none frame →
      Interspersed p src dst → Interspersed p src (frame ++ dst)

theorem delivers_of_all {src : Bytes} {messages : List Message}
    (h : p.all binder src = .ok (messages, src.length)) : p.Delivers binder messages src := by
  obtain ⟨delivered, frames, rest, d, rfl, ⟨n, -, read⟩ | ⟨e, -, -, read⟩⟩ := all_stops p binder src
  · rw [read, Except.ok.injEq, Prod.mk.injEq, List.length_append] at h
    obtain ⟨rfl, used⟩ := h
    have empty : rest = [] := List.eq_nil_of_length_eq_zero (by omega)
    rwa [empty, List.append_nil]
  · rw [read] at h
    cases h

theorem all_unknown {frame : Bytes} (unknown : p.Holds none frame) (src : Bytes) :
    p.all binder (frame ++ src) =
      (p.all binder src).map fun (messages, used) => (messages, frame.length + used) := by
  rw [all_front (first_of_holds binder unknown src), List.drop_left]
  rfl

theorem messages_of_front {src : Bytes} {answer : Option Message} {used : Nat}
    (h : p.first binder src = .ok (answer, used)) : (p.all binder src).map Prod.fst =
      ((p.all binder (src.drop used)).map Prod.fst).map (answer.toList ++ ·) := by
  rw [all_front h]
  cases p.all binder (src.drop used) <;> rfl

theorem messages_of_frame {payload frame : Bytes}
    (framed : Frame p.framing.maxPayload payload frame) {src dst : Bytes}
    (same : (p.all binder dst).map Prod.fst = (p.all binder src).map Prod.fst) :
    (p.all binder (frame ++ dst)).map Prod.fst = (p.all binder (frame ++ src)).map Prod.fst := by
  have front (rest : Bytes) : p.first binder (frame ++ rest) =
      (p.ofPayload binder payload).map fun answer => (answer, frame.length) :=
    first_frame framed rest
  cases read : p.ofPayload binder payload with
  | ok answer =>
    simp only [read] at front
    rw [messages_of_front (front dst), messages_of_front (front src), List.drop_left,
      List.drop_left, same]
  | error e =>
    simp only [read] at front
    by_cases waits : ∃ n, e = .incompleteFrame n
    · obtain ⟨n, rfl⟩ := waits
      rw [all_incomplete (front dst), all_incomplete (front src)]
    · have fatal := not_exists.mp waits
      rw [all_error (front dst) fatal, all_error (front src) fatal]

theorem Interspersed.messages {src dst : Bytes} (h : p.Interspersed src dst) :
    (p.all binder dst).map Prod.fst = (p.all binder src).map Prod.fst := by
  induction h with
  | rest src => rfl
  | frame framed _ ih => exact messages_of_frame framed ih
  | unknown unknown _ ih =>
    rw [all_unknown unknown, ← ih]
    cases p.all binder _ <;> rfl

/-- A frame of an unknown type behind whole frames takes its bytes and adds nothing: the messages
behind it are read, and so are the errors. So any number of such frames, wherever they stand between
the frames of a buffer, change neither the messages nor the error. -/
theorem unknown_frames_transparent (p : Protocol) (binder : Binder) :
    (∀ (whole frame rest : Bytes) (messages : List Message),
      p.all binder whole = .ok (messages, whole.length) → p.Holds none frame →
      (∀ later used, p.all binder rest = .ok (later, used) →
        p.all binder (whole ++ frame ++ rest) =
          .ok (messages ++ later, whole.length + frame.length + used) ∧
        p.all binder (whole ++ rest) = .ok (messages ++ later, whole.length + used)) ∧
      ∀ e, p.all binder rest = .error e →
        p.all binder (whole ++ frame ++ rest) = .error e ∧
        p.all binder (whole ++ rest) = .error e) ∧
    ∀ src dst, p.Interspersed src dst →
      (p.all binder dst).map Prod.fst = (p.all binder src).map Prod.fst := by
  refine ⟨?_, fun _ _ h => h.messages⟩
  intro whole frame rest messages read unknown
  have d := delivers_of_all read
  have behind := d.all (frame ++ rest)
  rw [← List.append_assoc, all_unknown unknown] at behind
  constructor
  · intro later used h
    rw [behind, d.all, h]
    simp [Except.map, Nat.add_assoc]
  · intro e h
    rw [behind, d.all, h]
    exact ⟨rfl, rfl⟩

/-- A ping; a frame of type 42 with a reserved byte behind its type; then a ping and the first byte
of a frame, or a value that is no array. -/
theorem unknown_frames_transparent_pings :
    ((ofConfig ⟨100, 1⟩).all .untyped ([2, 0x91, 6] ++ [3, 0x91, 42, 0xc1] ++ [2, 0x91, 6, 3]) =
        .ok ([.ping, .ping], 10) ∧
      (ofConfig ⟨100, 1⟩).all .untyped ([2, 0x91, 6] ++ [3, 0x91, 42, 0xc1] ++ [1, 0xc0]) =
        .error (.malformedValue (.unexpected .array .nil))) ∧
    ((ofConfig ⟨100, 1⟩).all .untyped [3, 0x91, 42, 0xc1, 2, 0x91, 6, 3, 0x91, 42, 0xc1, 1]).map
        Prod.fst =
      ((ofConfig ⟨100, 1⟩).all .untyped [2, 0x91, 6, 1]).map Prod.fst := by
  have two : Prefix 4 [0x91, 6].length [2] := .last (by decide)
  have three : Prefix 4 ([0x91, 42] ++ [0xc1]).length [3] := .last (by decide)
  have later : Unknown [0x91, 42] :=
    .mk (.short (by decide : (1, 0x91) ∈ LengthForms.array.short)) (by decide)
      (.positive (by decide : 42 < 128)) (by decide) (.inr (by decide))
  have framed : Frame 100 ([0x91, 42] ++ [0xc1]) ([3] ++ ([0x91, 42] ++ [0xc1])) :=
    .mk three (by decide)
  have unknown : (ofConfig ⟨100, 1⟩).Holds none [3, 0x91, 42, 0xc1] :=
    ⟨[0x91, 42], [0xc1], later, framed⟩
  have ping : Frame 100 [0x91, 6] ([2] ++ [0x91, 6]) := .mk two (by decide)
  have whole : (ofConfig ⟨100, 1⟩).all .untyped [2, 0x91, 6] = .ok ([.ping], 3) := by cbv
  have waits : (ofConfig ⟨100, 1⟩).all .untyped [2, 0x91, 6, 3] = .ok ([.ping], 3) := by cbv
  have fails : (ofConfig ⟨100, 1⟩).all .untyped [1, 0xc0] =
      .error (.malformedValue (.unexpected .array .nil)) := by cbv
  obtain ⟨behind, spread⟩ := unknown_frames_transparent (ofConfig ⟨100, 1⟩) .untyped
  obtain ⟨reads, stops⟩ := behind _ _ [2, 0x91, 6, 3] _ whole unknown
  obtain ⟨-, bad⟩ := behind _ _ [1, 0xc0] _ whole unknown
  exact ⟨⟨(reads _ _ waits).1, (bad _ fails).1⟩,
    spread _ _ (.unknown unknown (.frame ping (.unknown unknown (.rest [1]))))⟩

end HubPack.Protocol
