import HubPack.Proofs.Stream.Chunking

namespace HubPack.Framing
open Wire

inductive Call where
  | append (payload : Bytes)
  | take

structure History where
  buffer : Bytes := []
  accepted : List Bytes := []
  returned : List Bytes := []
  failures : List WireError := []

def History.step (f : Framing) (h : History) : Call → History
  | .append payload =>
    match f.append payload h.buffer with
    | .ok buffer => { h with buffer, accepted := h.accepted ++ [payload] }
    | .error _ => h
  | .take =>
    match f.take h.buffer with
    | .ok (some payload, buffer) => { h with buffer, returned := h.returned ++ [payload] }
    | .ok (none, buffer) => { h with buffer }
    | .error e => { h with failures := h.failures ++ [e] }

def run (f : Framing) (calls : List Call) : History :=
  calls.foldl (History.step f) {}

variable {f : Framing}

section Reading

theorem take_frame {payload frame : Bytes} (h : Frame f.maxPayload payload frame) (rest : Bytes) :
    f.take (frame ++ rest) = .ok (some payload, rest) := by
  obtain ⟨span, located, stop, bytes⟩ := locate_complete h rest
  rw [take, first?, located]
  change Except.ok (some (span.of (frame ++ rest)), (frame ++ rest).drop span.stop) = _
  rw [bytes, stop, List.drop_left]

theorem take_incomplete {src : Bytes} {n : Nat} (h : f.locate src = .error (.incompleteFrame n)) :
    f.take src = .ok (none, src) := by
  rw [take, first?, h]
  rfl

theorem take_frames {pending : List Bytes} {buffer : Bytes}
    (framed : Sequence (Frame f.maxPayload) pending buffer) :
    (pending = [] ∧ buffer = [] ∧ f.take buffer = .ok (none, [])) ∨
      ∃ payload later rest, pending = payload :: later ∧
        Sequence (Frame f.maxPayload) later rest ∧ f.take buffer = .ok (some payload, rest) := by
  cases framed with
  | nil => exact .inl ⟨rfl, rfl, take_incomplete rfl⟩
  | cons head tail => exact .inr ⟨_, _, _, rfl, tail, take_frame head _⟩

theorem take_cut {payload frame src x y : Bytes} (h : Frame f.maxPayload payload frame)
    (split : frame ++ y = src ++ x) (short : src.length < frame.length) :
    f.take src = .ok (none, src) := by
  by_cases waits : ∃ n, f.locate src = .error (.incompleteFrame n)
  · obtain ⟨n, waits⟩ := waits
    exact take_incomplete waits
  · -- what is known of a buffer stays known, so the frame would end inside `src`
    have known := locate_append (fun n located => waits ⟨n, located⟩) x
    obtain ⟨span, located, stop, -⟩ := locate_complete h y
    rw [← split, located] at known
    obtain ⟨-, -, inside⟩ := locate_ok known.symm
    omega

end Reading

structure Queued (f : Framing) (h : History) (pending : List Bytes) : Prop where
  failures : h.failures = []
  accepted : h.accepted = h.returned ++ pending
  buffer : Sequence (Frame f.maxPayload) pending h.buffer

theorem step_append_refused {h : History} {payload : Bytes}
    (large : f.maxPayload < payload.length) : h.step f (.append payload) = h := by
  rw [History.step, append_eq, if_pos large]

theorem step_append_accepted {h : History} {payload buffer : Bytes}
    (appended : f.append payload h.buffer = .ok buffer) : h.step f (.append payload) =
      { h with buffer, accepted := h.accepted ++ [payload] } := by
  rw [History.step, appended]

namespace Queued

variable {h : History} {pending : List Bytes}

theorem append (q : Queued f h pending) (payload : Bytes) :
    ∃ pending', Queued f (h.step f (.append payload)) pending' := by
  cases appended : f.append payload h.buffer with
  | error e =>
    have failed : h.step f (.append payload) = h := by rw [History.step, appended]
    rw [failed]
    exact ⟨pending, q⟩
  | ok buffer =>
    obtain ⟨frame, rfl, framed⟩ := append_frame appended
    rw [step_append_accepted appended]
    refine ⟨pending ++ [payload], q.failures, ?_, q.buffer.snoc framed⟩
    rw [q.accepted, List.append_assoc]

theorem take (q : Queued f h pending) : ∃ pending', Queued f (h.step f .take) pending' := by
  obtain ⟨failures, accepted, framed⟩ := q
  rcases take_frames framed with ⟨rfl, -, taken⟩ | ⟨payload, later, rest, rfl, tail, taken⟩
  · rw [History.step, taken]
    exact ⟨[], failures, accepted, .nil⟩
  · rw [History.step, taken]
    refine ⟨later, failures, ?_, tail⟩
    rw [accepted, List.append_assoc, List.singleton_append]

end Queued

theorem step_queued {h : History} {pending : List Bytes} (q : Queued f h pending) (call : Call) :
    ∃ pending', Queued f (h.step f call) pending' := by
  cases call with
  | append payload => exact q.append payload
  | take => exact q.take

theorem foldl_queued (calls : List Call) {h : History} {pending : List Bytes}
    (q : Queued f h pending) : ∃ pending', Queued f (calls.foldl (History.step f) h) pending' := by
  induction calls generalizing h pending with
  | nil => exact ⟨pending, q⟩
  | cons call calls ih =>
    obtain ⟨_, q'⟩ := step_queued q call
    exact ih q'

theorem run_queued (f : Framing) (calls : List Call) : ∃ pending, Queued f (run f calls) pending :=
  foldl_queued calls (h := {}) ⟨rfl, rfl, .nil⟩

theorem foldl_append {payloads : List Bytes}
    (within : ∀ payload ∈ payloads, payload.length ≤ f.maxPayload) (h : History) :
    ((payloads.map Call.append).foldl (History.step f) h).accepted = h.accepted ++ payloads ∧
      ((payloads.map Call.append).foldl (History.step f) h).returned = h.returned := by
  induction payloads generalizing h with
  | nil => exact ⟨(List.append_nil _).symm, rfl⟩
  | cons payload payloads ih =>
    obtain ⟨first, rest⟩ := List.forall_mem_cons.mp within
    have step := step_append_accepted (append_eq_ok_iff.mpr ⟨first, rfl⟩) (h := h)
    rw [List.map_cons, List.foldl_cons, step]
    obtain ⟨accepted, returned⟩ := ih rest _
    refine ⟨accepted.trans ?_, returned⟩
    rw [List.append_assoc, List.singleton_append]

theorem run_append {payloads : List Bytes}
    (within : ∀ payload ∈ payloads, payload.length ≤ f.maxPayload) :
    (run f (payloads.map .append)).accepted = payloads ∧
      Sequence (Frame f.maxPayload) payloads (run f (payloads.map .append)).buffer := by
  obtain ⟨accepted, returned⟩ := foldl_append within {}
  obtain ⟨pending, -, order, framed⟩ := run_queued f (payloads.map .append)
  have all : payloads = pending := by
    have order := accepted.symm.trans order
    rwa [run, returned] at order
  exact ⟨accepted, all ▸ framed⟩

section Chunks

theorem take_shrinks {src payload rest : Bytes} (h : f.take src = .ok (some payload, rest)) :
    rest.length < src.length := by
  cases located : f.locate src with
  | ok span =>
    obtain ⟨positive, ordered, inside⟩ := locate_ok located
    rw [take, first?, located] at h
    cases h
    rw [List.length_drop]
    omega
  | error e =>
    rw [take, first?, located] at h
    cases e <;> cases h

structure Received where
  payloads : List Bytes := []
  error : Option WireError := none
  buffer : Bytes := []

def drain (f : Framing) (src : Bytes) : Received :=
  match h : f.take src with
  | .ok (some payload, rest) =>
    have := take_shrinks h
    let later := f.drain rest
    { later with payloads := payload :: later.payloads }
  | .ok (none, rest) => { buffer := rest }
  | .error e => { error := some e, buffer := src }
termination_by src.length

def feed (f : Framing) (r : Received) (chunk : Bytes) : Received :=
  let later := f.drain (r.buffer ++ chunk)
  { later with payloads := r.payloads ++ later.payloads }

theorem drain_payload {src payload rest : Bytes} (h : f.take src = .ok (some payload, rest)) :
    f.drain src = { f.drain rest with payloads := payload :: (f.drain rest).payloads } := by
  rw [drain]
  split <;> rename_i found <;> rw [h] at found <;> cases found
  rfl

theorem drain_waiting {src rest : Bytes} (h : f.take src = .ok (none, rest)) :
    f.drain src = { buffer := rest } := by
  rw [drain]
  split <;> rename_i found <;> rw [h] at found <;> cases found
  rfl

theorem drain_frames {pending : List Bytes} {src x : Bytes}
    (framed : Sequence (Frame f.maxPayload) pending (src ++ x)) :
    ∃ delivered later rest, pending = delivered ++ later ∧
      f.drain src = { payloads := delivered, buffer := rest } ∧
      f.take rest = .ok (none, rest) ∧ Sequence (Frame f.maxPayload) later (rest ++ x) := by
  generalize whole : src ++ x = bytes at framed
  induction framed generalizing src with
  | nil =>
    obtain ⟨rfl, rfl⟩ := List.append_eq_nil_iff.mp whole
    have waits : f.take [] = .ok (none, []) := take_incomplete rfl
    exact ⟨[], [], [], rfl, drain_waiting waits, waits, .nil⟩
  | @cons payload pending frame frames head tail ih =>
    by_cases short : src.length < frame.length
    · have waits := take_cut head whole.symm short
      refine ⟨[], payload :: pending, src, rfl, drain_waiting waits, waits, ?_⟩
      rw [whole]
      exact .cons head tail
    · have front : frame <+: src :=
        List.prefix_of_prefix_length_le ⟨frames, whole.symm⟩ ⟨x, rfl⟩ (Nat.not_lt.mp short)
      obtain ⟨src, rfl⟩ := front
      rw [List.append_assoc] at whole
      obtain ⟨delivered, later, rest, rfl, drained, waits, behind⟩ :=
        ih (List.append_cancel_left whole)
      refine ⟨payload :: delivered, later, rest, rfl, ?_, waits, behind⟩
      rw [drain_payload (take_frame head src), drained]

/-- Where the chunks have come to: some payloads are delivered, and the others begin with what is
in the buffer. -/
structure Partway (f : Framing) (payloads : List Bytes) (r : Received) (x : Bytes) : Prop where
  error : r.error = none
  waits : f.take r.buffer = .ok (none, r.buffer)
  later : ∃ later, payloads = r.payloads ++ later ∧
    Sequence (Frame f.maxPayload) later (r.buffer ++ x)

theorem Partway.feed {payloads : List Bytes} {r : Received} {chunk x : Bytes}
    (h : Partway f payloads r (chunk ++ x)) : Partway f payloads (f.feed r chunk) x := by
  obtain ⟨-, -, later, rfl, framed⟩ := h
  rw [← List.append_assoc] at framed
  obtain ⟨delivered, later, rest, rfl, drained, waits, behind⟩ := drain_frames framed
  rw [Framing.feed, drained]
  exact ⟨rfl, waits, later, (List.append_assoc ..).symm, behind⟩

theorem foldl_feed_frames {payloads : List Bytes} (chunks : List Bytes) {r : Received}
    (h : Partway f payloads r chunks.flatten) : chunks.foldl f.feed r = { payloads } := by
  induction chunks generalizing r with
  | nil =>
    obtain ⟨error, waits, later, rfl, framed⟩ := h
    rw [List.flatten_nil, List.append_nil] at framed
    rcases take_frames framed with ⟨rfl, empty, -⟩ | ⟨_, _, _, -, -, taken⟩
    · obtain ⟨payloads, error, buffer⟩ := r
      subst error empty
      rw [List.append_nil]
      rfl
    · rw [waits] at taken
      cases taken
  | cons chunk chunks ih => exact ih h.feed

theorem feed_frames {payloads chunks : List Bytes}
    (framed : Sequence (Frame f.maxPayload) payloads chunks.flatten) :
    chunks.foldl f.feed {} = { payloads } :=
  foldl_feed_frames chunks ⟨rfl, take_incomplete rfl, payloads, rfl, framed⟩

end Chunks

/-- At every moment a payload is put in exactly if it is within the limit, and a refused one leaves
the buffer as it is; no read has failed; what was returned is the beginning of what was put in, and
a read returns the next of it, or nothing, of an empty buffer, if there is no more. In chunks, the
bytes of the buffer bring the payloads that it holds, and nothing else. -/
theorem run_queue (n : Nat) (calls : List Call) :
    let f := ofMax n
    let h := run f calls
    let limit := min n (2 ^ 31 - 1)
    (∀ payload, (∃ buffer, f.append payload h.buffer = .ok buffer) ↔ payload.length ≤ limit) ∧
    (∀ payload, limit < payload.length → h.step f (.append payload) = h) ∧
    h.failures = [] ∧
    (∃ pending, h.accepted = h.returned ++ pending ∧
      ((pending = [] ∧ h.buffer = [] ∧ f.take h.buffer = .ok (none, [])) ∨
        ∃ payload later rest,
          pending = payload :: later ∧ f.take h.buffer = .ok (some payload, rest)) ∧
      ∀ chunks : List Bytes, chunks.flatten = h.buffer →
        chunks.foldl f.feed {} = { payloads := pending }) ∧
    ∀ payloads : List Bytes, (∀ payload ∈ payloads, payload.length ≤ limit) →
      (run f (payloads.map .append)).accepted = payloads ∧
      ∀ chunks : List Bytes, chunks.flatten = (run f (payloads.map .append)).buffer →
        chunks.foldl f.feed {} = { payloads } := by
  intro f h limit
  obtain ⟨pending, failures, order, framed⟩ := run_queued f calls
  refine ⟨fun payload => ?_, fun payload => step_append_refused (f := f), failures,
    ⟨pending, order, ?_, ?_⟩, ?_⟩
  · constructor
    · rintro ⟨buffer, appended⟩
      exact (append_eq_ok_iff.mp appended).1
    · exact fun within => ⟨_, append_eq_ok_iff.mpr ⟨within, rfl⟩⟩
  · rcases take_frames framed with ended | ⟨payload, later, rest, waiting, -, taken⟩
    · exact .inl ended
    · exact .inr ⟨payload, later, rest, waiting, taken⟩
  · intro chunks bytes
    exact feed_frames (bytes ▸ framed)
  · intro payloads within
    obtain ⟨accepted, framed⟩ := run_append (f := f) within
    exact ⟨accepted, fun chunks bytes => feed_frames (bytes ▸ framed)⟩

/-- A payload above the limit, an empty one, and one that looks like a frame. -/
def exchange : List Call :=
  [.append [1, 7], .append [0, 0, 0, 0], .take, .append [], .append [1, 9]]

theorem run_queue_exchange :
    (run (ofMax 3) exchange).step (ofMax 3) (.append [0, 0, 0, 0]) = run (ofMax 3) exchange ∧
    [[0, 2], [1], [], [9]].foldl (ofMax 3).feed {} = { payloads := [[], [1, 9]] } ∧
    [[2], [1, 7, 0]].foldl (ofMax 3).feed {} = { payloads := [[1, 7], []] } := by
  obtain ⟨-, refused, -, ⟨pending, order, -, chunked⟩, appended⟩ := run_queue 3 exchange
  have accepted : (run (ofMax 3) exchange).accepted = [[1, 7], [], [1, 9]] := by cbv
  have returned : (run (ofMax 3) exchange).returned = [[1, 7]] := by cbv
  have rest : [[], [1, 9]] = pending := by
    rw [accepted, returned] at order
    exact (List.cons.inj order).2
  refine ⟨refused _ (by decide), rest ▸ chunked _ (by cbv), ?_⟩
  exact (appended [[1, 7], []] (by decide)).2 _ (by cbv)

end HubPack.Framing
