import HubPack.Proofs.Reading.Orderly
import HubPack.Proofs.Stream.Batch

namespace HubPack

def WireError.EndsStream (e : WireError) : Prop :=
  ((∃ size limit, e = .frameTooLarge size limit) ∨ (∃ cause, e = .malformedValue cause) ∨
    ∃ cause, e = .protocolViolation cause) ∧ e.isFatal = true ∧ e.isRecoverable = false

/-- A read that is made in the course of another: `s` of the bytes `cs`, while `r` reads `bs`. -/
inductive Makes : {α β : Type} → Reader α → Bytes → Reader β → Bytes → Prop where
  | self {α : Type} (r : Reader α) (bs : Bytes) : Makes r bs r bs
  | first {α β γ : Type} {r : Reader α} {k : α → Reader β} {s : Reader γ} {bs cs : Bytes} :
      Makes r bs s cs → Makes (r >>= k) bs s cs
  | map {α β γ : Type} {r : Reader α} {f : α → β} {s : Reader γ} {bs cs : Bytes} :
      Makes r bs s cs → Makes (f <$> r) bs s cs
  | next {α β γ : Type} {r : Reader α} {k : α → Reader β} {s : Reader γ} {a : α}
      {bs mid cs : Bytes} :
      r bs = .ok a mid → Makes (k a) mid s cs → Makes (r >>= k) bs s cs

theorem Makes.wantsMore {α β : Type} {r : Reader α} {s : Reader β} {bs cs : Bytes}
    (h : Makes r bs s cs) (short : WantsMore (s cs)) : WantsMore (r bs) := by
  -- a read fails with the first part of it that fails
  induction h with
  | self => exact short
  | first _ ih =>
    obtain ⟨rest, failed⟩ := ih short
    exact ⟨rest, bind_of_error failed⟩
  | map _ ih =>
    obtain ⟨rest, failed⟩ := ih short
    rw [← bind_pure_comp]
    exact ⟨rest, bind_of_error failed⟩
  | next read _ ih =>
    rw [bind_of_ok read]
    exact ih short

theorem ReadError.insideFrame_endsStream {e : WireError} (h : ReadError e) :
    e.insideFrame.EndsStream := by
  cases h with
  | short => exact ⟨.inr (.inl ⟨_, rfl⟩), rfl, rfl⟩
  | malformed => exact ⟨.inr (.inl ⟨_, rfl⟩), rfl, rfl⟩
  | violation => exact ⟨.inr (.inr ⟨_, rfl⟩), rfl, rfl⟩

theorem ReadError.insideFrame_eq_pastFrame_iff {e : WireError} (h : ReadError e) :
    e.insideFrame = .malformedValue .pastFrame ↔ e = .insufficientData := by
  cases h with
  | short => exact ⟨fun _ => rfl, fun _ => rfl⟩
  | malformed other =>
    refine ⟨fun same => ?_, nofun⟩
    cases same
    exact absurd rfl other
  | violation => exact ⟨nofun, nofun⟩

theorem LengthPrefix.readWithin_error {more : Nat} {bs : Bytes} {e : WireError}
    (h : readWithin more bs = .error e) : e = .malformedValue .lengthPrefix := by
  induction bs generalizing more with
  | nil => cases more <;> cases h
  | cons b bs ih =>
    cases more with
    | zero =>
      rw [readWithin] at h
      split at h <;> cases h
      rfl
    | succ more =>
      rw [readWithin] at h
      split at h
      · cases h
      · cases rest : readWithin more bs with
        | ok found =>
          rw [rest] at h
          cases h
        | error f =>
          rw [rest] at h
          cases h
          exact ih rest

theorem Framing.locate_error {f : Framing} {src : Bytes} {e : WireError}
    (h : f.locate src = .error e) : (∃ n, e = .incompleteFrame n) ∨ e.EndsStream := by
  rw [locate] at h
  split at h
  · rename_i found
    cases h
    rw [LengthPrefix.readWithin_error found]
    exact .inr ⟨.inr (.inl ⟨_, rfl⟩), rfl, rfl⟩
  · cases h
    exact .inl ⟨1, rfl⟩
  · simp only at h
    split at h
    · cases h
      exact .inr ⟨.inl ⟨_, _, rfl⟩, rfl, rfl⟩
    · split at h <;> cases h
      exact .inl ⟨_, rfl⟩

namespace Protocol
open Wire

variable {p : Protocol} {binder : Binder}

theorem ofPayload_error {payload : Bytes} {e : WireError}
    (h : p.ofPayload binder payload = .error e) : e.EndsStream := by
  rw [ofPayload] at h
  split at h
  · cases h
  · rename_i read
    cases h
    exact ((orderly_message _ _).fails read).insideFrame_endsStream

theorem ofPayload_eq_pastFrame_iff {payload : Bytes} :
    p.ofPayload binder payload = .error (.malformedValue .pastFrame) ↔
      WantsMore (readMessage p.maxNestingDepth binder payload) := by
  have orderly := orderly_message p.maxNestingDepth binder
  rw [ofPayload]
  cases read : readMessage p.maxNestingDepth binder payload with
  | ok answer rest =>
    constructor
    · intro h
      cases h
    · exact fun short => absurd short (not_wantsMore_ok answer rest)
  | error e rest =>
    simp only [Except.error.injEq]
    rw [wantsMore_error_iff, (orderly.fails read).insideFrame_eq_pastFrame_iff]

theorem first_error {src : Bytes} {e : WireError} (h : p.first binder src = .error e) :
    p.framing.locate src = .error e ∨ e.EndsStream := by
  cases located : p.framing.locate src with
  | error f =>
    rw [first_of_locate_error located] at h
    cases h
    exact .inl rfl
  | ok span =>
    rw [first_of_locate located] at h
    cases read : p.ofPayload binder (span.of src) with
    | ok answer =>
      rw [read] at h
      cases h
    | error f =>
      rw [read] at h
      cases h
      exact .inr (ofPayload_error read)

theorem first_incomplete_iff {src : Bytes} {n : Nat} :
    p.first binder src = .error (.incompleteFrame n) ↔
      p.framing.locate src = .error (.incompleteFrame n) := by
  constructor
  · intro h
    rcases first_error h with located | ⟨-, fatal, -⟩
    · exact located
    · cases fatal
  · exact first_of_locate_error

theorem first_endsStream {src : Bytes} {e : WireError} (h : p.first binder src = .error e)
    (fatal : ∀ n, e ≠ .incompleteFrame n) : e.EndsStream := by
  rcases first_error h with located | ends
  · rcases Framing.locate_error located with ⟨n, rfl⟩ | ends
    · exact absurd rfl (fatal n)
    · exact ends
  · exact ends

theorem all_endsStream {src : Bytes} {e : WireError} (h : p.all binder src = .error e) :
    e.EndsStream := by
  obtain ⟨_, _, rest, -, rfl, ⟨n, -, read⟩ | ⟨f, stops, fatal, read⟩⟩ := all_stops p binder src
  · rw [read] at h
    cases h
  · rw [read] at h
    cases h
    exact first_endsStream stops fatal

theorem takeAll_endsStream {src : Bytes} {e : WireError} (h : p.takeAll binder src = .error e) :
    e.EndsStream := by
  rw [takeAll] at h
  cases read : p.all binder src with
  | ok found =>
    rw [read] at h
    cases h
  | error f =>
    rw [read] at h
    cases h
    exact all_endsStream read

theorem takeNext_endsStream {src : Bytes} {e : WireError}
    (h : (p.takeNext binder src).1 = .error e) : e.EndsStream := by
  induction src using p.takeNext_induct binder with
  | message => cases h
  | unknown _ ih => exact ih h
  | incomplete => cases h
  | error stops fatal =>
    cases h
    exact first_endsStream stops fatal

theorem first_pastFrame_iff {payload frame : Bytes}
    (framed : Frame p.framing.maxPayload payload frame) (rest : Bytes) :
    p.first binder (frame ++ rest) = .error (.malformedValue .pastFrame) ↔
      WantsMore (readMessage p.maxNestingDepth binder payload) := by
  rw [first_frame framed, ← ofPayload_eq_pastFrame_iff]
  cases p.ofPayload binder payload with
  | ok answer => exact ⟨nofun, nofun⟩
  | error e => simp only [Except.map, Except.error.injEq]

theorem readMessage_of_unknownType {limit fields : Nat} {bs mid rest : Bytes} {code : Int}
    (head : readArrayHeader bs = .ok fields mid) (filled : fields ≠ 0)
    (unknown : readMessageType mid = .error (.unknownMessageType code) rest) :
    readMessage limit binder bs = .ok none rest := by
  rw [readMessage, bind_of_ok head, if_neg filled]
  cases read : readInt mid with
  | error e tail =>
    rw [readMessageType, bind_of_error read] at unknown
    cases unknown
    cases orderly_int.fails read
  | ok i tail =>
    rw [readMessageType, bind_of_ok read] at unknown
    rw [bind_of_ok read]
    cases known : MessageType.ofCode? i.toInt with
    | some type =>
      rw [known] at unknown
      cases unknown
    | none =>
      rw [known] at unknown
      cases unknown
      rfl

theorem first_of_unknownType {payload frame mid tail : Bytes} {fields : Nat} {code : Int}
    (framed : Frame p.framing.maxPayload payload frame)
    (head : readArrayHeader payload = .ok fields mid) (filled : fields ≠ 0)
    (unknown : readMessageType mid = .error (.unknownMessageType code) tail) (rest : Bytes) :
    p.first binder (frame ++ rest) = .ok (none, frame.length) := by
  have read : readMessage p.maxNestingDepth binder payload = .ok none tail :=
    readMessage_of_unknownType head filled unknown
  rw [first_frame framed, ofPayload_eq_ok_iff.mpr ⟨tail, read⟩]
  rfl

/-- A read waits for more bytes exactly if they are missing from the first frame; any other error
ends the stream, and is the only kind that the reads of a stream give. If what is read inside a
whole frame wants more bytes than the frame has, in any of the reads that it is made of, then the
frame is in error, whatever follows it; and a code of an unknown type is no error there. -/
theorem errors_classified (p : Protocol) (binder : Binder) :
    (∀ src n, p.first binder src = .error (.incompleteFrame n) ↔
      p.framing.locate src = .error (.incompleteFrame n)) ∧
    (∀ src e, p.first binder src = .error e → (∀ n, e ≠ .incompleteFrame n) → e.EndsStream) ∧
    (∀ src e, p.all binder src = .error e ∨ p.takeAll binder src = .error e ∨
      (p.takeNext binder src).1 = .error e → e.EndsStream) ∧
    ∀ payload frame, Frame p.framing.maxPayload payload frame → ∀ rest,
      (p.first binder (frame ++ rest) = .error (.malformedValue .pastFrame) ↔
        WantsMore (readMessage p.maxNestingDepth binder payload)) ∧
      (∀ (β : Type) (r : Reader β) (bs : Bytes),
        Makes (readMessage p.maxNestingDepth binder) payload r bs → WantsMore (r bs) →
        p.first binder (frame ++ rest) = .error (.malformedValue .pastFrame)) ∧
      (∀ x, (unread (readMessage p.maxNestingDepth binder (payload ++ x))).length < x.length →
        p.first binder (frame ++ rest) = .error (.malformedValue .pastFrame)) ∧
      ∀ fields mid code tail, readArrayHeader payload = .ok fields mid → fields ≠ 0 →
        readMessageType mid = .error (.unknownMessageType code) tail →
        p.first binder (frame ++ rest) = .ok (none, frame.length) := by
  refine ⟨fun src n => first_incomplete_iff, fun src e => first_endsStream, ?_, ?_⟩
  · rintro src e (h | h | h)
    · exact all_endsStream h
    · exact takeAll_endsStream h
    · exact takeNext_endsStream h
  · intro payload frame framed rest
    have past : p.first binder (frame ++ rest) = .error (.malformedValue .pastFrame) ↔ _ :=
      first_pastFrame_iff framed rest
    refine ⟨past, fun β r bs made short => past.mpr (made.wantsMore short), fun x more => ?_,
      fun fields mid code tail head filled unknown =>
        first_of_unknownType framed head filled unknown rest⟩
    exact past.mpr ((orderly_message p.maxNestingDepth binder).wantsMore more)

/-- A frame above the limit; a value that is no array; a message of three fields, of which the last
is a text of five bytes and has one, before bytes that are not its own and would complete it; a
message of type 42. -/
theorem errors_classified_truncated :
    ((ofConfig ⟨100, 1⟩).first .untyped [101] = .error (.frameTooLarge 101 100) ∧
      (WireError.frameTooLarge 101 100).EndsStream) ∧
    ((ofConfig ⟨100, 1⟩).all .untyped [1, 0xc0] =
        .error (.malformedValue (.unexpected .array .nil)) ∧
      (WireError.malformedValue (.unexpected .array .nil)).EndsStream) ∧
    (Makes (readMessage 1 .untyped) [0x93, 5, 0x80, 0xa5, 49] readString [0xa5, 49] ∧
      ∀ rest, (ofConfig ⟨100, 1⟩).first .untyped ([5, 0x93, 5, 0x80, 0xa5, 49] ++ rest) =
        .error (.malformedValue .pastFrame)) ∧
    ((unread (readMessage 1 .untyped ([0x93, 5, 0x80, 0xa5, 49] ++ [50, 50, 50, 50]))).length < 4 ∧
      (ofConfig ⟨100, 1⟩).first .untyped ([5, 0x93, 5, 0x80, 0xa5, 49] ++ [50, 50, 50, 50]) =
        .error (.malformedValue .pastFrame)) ∧
    readMessageType [42, 0xc1] = .error (.unknownMessageType 42) [0xc1] ∧
      ∀ rest, (ofConfig ⟨100, 1⟩).first .untyped ([3, 0x91, 42, 0xc1] ++ rest) = .ok (none, 4) := by
  obtain ⟨-, single, stream, framed⟩ := errors_classified (ofConfig ⟨100, 1⟩) .untyped
  have large : (ofConfig ⟨100, 1⟩).first .untyped [101] = .error (.frameTooLarge 101 100) := by cbv
  have fatal : ∀ n, WireError.frameTooLarge 101 100 ≠ .incompleteFrame n := by
    intro n same
    cases same
  have fails : (ofConfig ⟨100, 1⟩).all .untyped [1, 0xc0] =
      .error (.malformedValue (.unexpected .array .nil)) := by cbv
  -- the text, inside the body of a message of type 5
  have header : readArrayHeader [0x93, 5, 0x80, 0xa5, 49] = .ok 3 [5, 0x80, 0xa5, 49] := by cbv
  have five : Integer (5 : Int64).toInt [5] := .positive (by decide : 5 < 128)
  have code : readInt [5, 0x80, 0xa5, 49] = .ok 5 [0x80, 0xa5, 49] := reads_int.complete five _
  have headers : readHeaders [0x80, 0xa5, 49] = .ok ∅ [0xa5, 49] := by cbv
  have made : Makes (readMessage 1 .untyped) [0x93, 5, 0x80, 0xa5, 49] readString [0xa5, 49] := by
    refine .next header (.next code ?_)
    change Makes (some <$> readKnown 1 .untyped 3 .cancelInvocation) _ _ _
    refine .map ?_
    change Makes (readBody 1 .untyped 3 .cancelInvocation >>= _) _ _ _
    exact .first (.next headers (.first (.self _ _)))
  have short : WantsMore (readString [0xa5, 49]) := ⟨[49], by cbv⟩
  have size : Prefix 4 [0x93, 5, 0x80, 0xa5, 49].length [5] := .last (by decide)
  have cut : Frame 100 [0x93, 5, 0x80, 0xa5, 49] ([5] ++ [0x93, 5, 0x80, 0xa5, 49]) :=
    .mk size (by decide)
  have unknown : readMessageType [42, 0xc1] = .error (.unknownMessageType 42) [0xc1] := by cbv
  have three : Prefix 4 [0x91, 42, 0xc1].length [3] := .last (by decide)
  have later : Frame 100 [0x91, 42, 0xc1] ([3] ++ [0x91, 42, 0xc1]) := .mk three (by decide)
  have more : (unread (readMessage 1 .untyped ([0x93, 5, 0x80, 0xa5, 49] ++
      [50, 50, 50, 50]))).length < [50, 50, 50, 50].length := by
    have whole : readMessage 1 .untyped ([0x93, 5, 0x80, 0xa5, 49] ++ [50, 50, 50, 50]) =
        .ok (some (.cancelInvocation { id := "12222" })) [] := by cbv
    rw [whole]
    decide
  refine ⟨⟨large, single _ _ large fatal⟩, ⟨fails, stream _ _ (.inl fails)⟩,
    ⟨made, fun rest => ?_⟩, ⟨more, ?_⟩, unknown, fun rest => ?_⟩
  · obtain ⟨-, inner, -⟩ := framed _ _ cut rest
    exact inner _ _ _ made short
  · obtain ⟨-, -, longer, -⟩ := framed _ _ cut [50, 50, 50, 50]
    exact longer _ more
  · obtain ⟨-, -, -, skipped⟩ := framed _ _ later rest
    exact skipped 1 [42, 0xc1] 42 [0xc1] (by cbv) (by decide) unknown

end Protocol

end HubPack
