import HubPack.Proofs.Stream.Chunking
import HubPack.Proofs.Stream.Frames

namespace HubPack.Protocol
open Wire

variable {p : Protocol} {binder : Binder}

/-- What one read of all frames receives. In error it takes nothing off the buffer. -/
def batch (p : Protocol) (binder : Binder) (src : Bytes) : Received :=
  match p.takeAll binder src with
  | .ok (messages, rest) => { messages, buffer := rest }
  | .error e => { error := some e, buffer := src }

/-- What a single read takes off a buffer, and its answer: frames of unknown types as far as there
are any, and behind them the frame of a message, if one is there. -/
inductive Taken (p : Protocol) (binder : Binder) :
    Bytes → Except WireError (Option Message) × Bytes → Prop where
  | message {n : Nat} {skipped frame rest : Bytes} {m : Message} :
      Sequence p.Holds (List.replicate n none) skipped → p.Holds (some m) frame →
      Taken p binder (skipped ++ (frame ++ rest)) (.ok (some (m.bound binder)), rest)
  | waiting {n needed : Nat} {skipped rest : Bytes} :
      Sequence p.Holds (List.replicate n none) skipped →
      p.first binder rest = .error (.incompleteFrame needed) →
      Taken p binder (skipped ++ rest) (.ok none, rest)
  | failed {n : Nat} {skipped rest : Bytes} {e : WireError} :
      Sequence p.Holds (List.replicate n none) skipped → p.first binder rest = .error e →
      (∀ needed, e ≠ .incompleteFrame needed) → Taken p binder (skipped ++ rest) (.error e, rest)

theorem Taken.behind {frame src : Bytes} {answer : Except WireError (Option Message) × Bytes}
    (unknown : p.Holds none frame) (t : p.Taken binder src answer) :
    p.Taken binder (frame ++ src) answer := by
  have more {n : Nat} {skipped : Bytes} (s : Sequence p.Holds (List.replicate n none) skipped) :
      Sequence p.Holds (List.replicate (n + 1) none) (frame ++ skipped) := .cons unknown s
  cases t with
  | message s holds =>
    rw [← List.append_assoc]
    exact .message (more s) holds
  | waiting s waits =>
    rw [← List.append_assoc]
    exact .waiting (more s) waits
  | failed s stops fatal =>
    rw [← List.append_assoc]
    exact .failed (more s) stops fatal

theorem takeNext_taken (p : Protocol) (binder : Binder) (src : Bytes) :
    p.Taken binder src (p.takeNext binder src) := by
  have none : Sequence p.Holds (List.replicate 0 none) [] := .nil
  induction src using p.takeNext_induct binder with
  | message front =>
    obtain ⟨raw, frame, rest, holds, bound, rfl, rfl⟩ := exists_holds_of_first front
    obtain ⟨m, rfl, rfl⟩ := Option.map_eq_some_iff.mp bound.symm
    rw [List.drop_left]
    exact .message none holds
  | unknown front ih =>
    obtain ⟨raw, frame, rest, holds, bound, rfl, rfl⟩ := exists_holds_of_first front
    rw [Option.map_eq_none_iff.mp bound.symm] at holds
    rw [List.drop_left] at ih ⊢
    exact ih.behind holds
  | incomplete waits => exact .waiting none waits
  | error stops fatal => exact .failed none stops fatal

theorem Delivers.drain {messages : List Message} {frames : Bytes}
    (d : p.Delivers binder messages frames) (rest : Bytes) : p.drain binder (frames ++ rest) =
      { p.drain binder rest with messages := messages ++ (p.drain binder rest).messages } := by
  obtain ⟨answers, framed, rfl⟩ := d
  induction framed with
  | nil => rfl
  | @cons answer answers frame frames holds _ ih =>
    have front := first_of_holds binder holds (frames ++ rest)
    rw [List.append_assoc]
    cases answer with
    | none =>
      have next := takeNext_unknown front
      rw [List.drop_left] at next
      rw [drain_eq_of_takeNext next, ih]
      rfl
    | some m =>
      have next := takeNext_message front
      rw [List.drop_left] at next
      rw [drain_message next, ih]
      rfl

theorem Delivers.waiting {messages : List Message} {frames rest : Bytes} {n : Nat}
    (d : p.Delivers binder messages frames)
    (waits : p.first binder rest = .error (.incompleteFrame n)) :
    p.drain binder (frames ++ rest) = { messages, buffer := rest } ∧
      p.batch binder (frames ++ rest) = { messages, buffer := rest } := by
  constructor
  · rw [d.drain, drain_waiting (takeNext_incomplete waits), List.append_nil]
  · rw [batch, takeAll, d.all, all_incomplete waits]
    simp [Except.map]

theorem Delivers.failed {messages : List Message} {frames rest : Bytes} {e : WireError}
    (d : p.Delivers binder messages frames) (stops : p.first binder rest = .error e)
    (fatal : ∀ n, e ≠ .incompleteFrame n) :
    p.drain binder (frames ++ rest) = { messages, error := some e, buffer := rest } ∧
      p.batch binder (frames ++ rest) = { error := some e, buffer := frames ++ rest } := by
  constructor
  · rw [d.drain, drain_failed (takeNext_error stops fatal), List.append_nil]
  · rw [batch, takeAll, d.all, all_error stops fatal]
    rfl

/-- A read of all frames that succeeds receives what single reads do, and leaves the beginning of a
frame, from which neither takes more. One that fails takes nothing; single reads then deliver the
frames before the first one in error, and stop at that with the same error. A single read takes
frames of unknown types, and one message if it answers that. -/
theorem batch_agrees (p : Protocol) (binder : Binder) (src : Bytes) :
    (∀ messages rest, p.batch binder src = { messages, buffer := rest } →
      p.drain binder src = { messages, buffer := rest } ∧
      (∃ frames, p.Delivers binder messages frames ∧ src = frames ++ rest) ∧
      (∃ n, p.first binder rest = .error (.incompleteFrame n)) ∧
      p.takeNext binder rest = (.ok none, rest) ∧ p.batch binder rest = { buffer := rest }) ∧
    (∀ messages e rest, p.batch binder src = { messages, error := some e, buffer := rest } →
      messages = [] ∧ rest = src ∧
      ∃ delivered frames bad, p.Delivers binder delivered frames ∧ src = frames ++ bad ∧
        p.first binder bad = .error e ∧ (∀ n, e ≠ .incompleteFrame n) ∧
        p.drain binder src = { messages := delivered, error := some e, buffer := bad }) ∧
    p.Taken binder src (p.takeNext binder src) := by
  obtain ⟨answers, frames, rest, e, framed, rfl, stops⟩ := exists_frames p src
  have d : p.Delivers binder _ frames := ⟨answers, framed, rfl⟩
  have taken := takeNext_taken p binder (frames ++ rest)
  by_cases waits : ∃ n, e = .incompleteFrame n
  · obtain ⟨n, rfl⟩ := waits
    obtain ⟨drained, batched⟩ := d.waiting (stops binder)
    rw [batched]
    refine ⟨fun messages rest' same => ?_, nofun, taken⟩
    cases same
    have again := takeNext_incomplete (stops binder)
    have empty : p.Delivers binder [] [] := ⟨[], .nil, rfl⟩
    exact ⟨drained, ⟨frames, d, rfl⟩, ⟨n, stops binder⟩, again, (empty.waiting (stops binder)).2⟩
  · have fatal := not_exists.mp waits
    obtain ⟨drained, batched⟩ := d.failed (stops binder) fatal
    rw [batched]
    refine ⟨nofun, fun messages f rest' same => ?_, taken⟩
    cases same
    exact ⟨rfl, rfl, _, frames, rest, d, rfl, stops binder, fatal, drained⟩

/-- A frame of an unknown type, a ping and the first byte of a third frame; a ping and a value that
is no array. -/
theorem batch_agrees_pings :
    ((ofConfig ⟨100, 1⟩).batch .untyped [2, 0x91, 42, 2, 0x91, 6, 3] =
        { messages := [.ping], buffer := [3] } ∧
      (ofConfig ⟨100, 1⟩).drain .untyped [2, 0x91, 42, 2, 0x91, 6, 3] =
        { messages := [.ping], buffer := [3] }) ∧
    (ofConfig ⟨100, 1⟩).batch .untyped [2, 0x91, 6, 1, 0xc0] =
      { error := some (.malformedValue (.unexpected .array .nil)),
        buffer := [2, 0x91, 6, 1, 0xc0] } ∧
    ∃ delivered frames bad, (ofConfig ⟨100, 1⟩).Delivers .untyped delivered frames ∧
      [2, 0x91, 6, 1, 0xc0] = frames ++ bad ∧
      (ofConfig ⟨100, 1⟩).drain .untyped [2, 0x91, 6, 1, 0xc0] =
        { messages := delivered,
          error := some (.malformedValue (.unexpected .array .nil)), buffer := bad } := by
  have one : (ofConfig ⟨100, 1⟩).batch .untyped [2, 0x91, 42, 2, 0x91, 6, 3] =
      { messages := [.ping], buffer := [3] } := by cbv
  have two : (ofConfig ⟨100, 1⟩).batch .untyped [2, 0x91, 6, 1, 0xc0] =
      { error := some (.malformedValue (.unexpected .array .nil)),
        buffer := [2, 0x91, 6, 1, 0xc0] } := by cbv
  obtain ⟨whole, -, -⟩ := batch_agrees (ofConfig ⟨100, 1⟩) .untyped [2, 0x91, 42, 2, 0x91, 6, 3]
  obtain ⟨-, failed, -⟩ := batch_agrees (ofConfig ⟨100, 1⟩) .untyped [2, 0x91, 6, 1, 0xc0]
  obtain ⟨drained, -⟩ := whole _ _ one
  obtain ⟨-, -, delivered, frames, bad, d, split, -, -, stopped⟩ := failed _ _ _ two
  exact ⟨⟨one, drained⟩, two, delivered, frames, bad, d, split, stopped⟩

end HubPack.Protocol
