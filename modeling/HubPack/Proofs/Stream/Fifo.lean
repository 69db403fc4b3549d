import HubPack.Session
import HubPack.Proofs.RoundTrip
import HubPack.Proofs.Stream.Batch

/-!
A session that sends to itself. Whatever the order of sends, reads and changes of the registry,
messages are received in the order in which they were sent, each once, and with the types that the
registry holds when they are received.
-/
namespace HubPack
open Wire

inductive Registry.Operation where
  | addTarget (target : String) (parameters : List Hint)
  | removeTarget (target : String)
  | awaitResult (id : String) (result : Hint)
  | awaitStream (id : String) (item : Hint)
  | complete (id : String)

def Registry.apply (r : Registry) : Operation → Registry
  | .addTarget target parameters => r.addTarget target parameters
  | .removeTarget target => (r.removeTarget target).2
  | .awaitResult id result => r.awaitResult id result
  | .awaitStream id item => r.awaitStream id item
  | .complete id => (r.complete id).2

namespace Session

structure Outgoing where
  headers : List (String × String)
  message : Message

structure Incoming where
  registry : Registry
  message : Message

inductive Event where
  | send (o : Outgoing)
  | receive
  | receiveAll
  | change (op : Registry.Operation)

structure History where
  session : Session
  sent : List Outgoing := []
  received : List Incoming := []
  failures : List WireError := []
  /-- A read has found no more messages since the last one was sent. -/
  drained : Bool := false

def History.step (h : History) : Event → History
  | .send o =>
    match h.session.sendAs o.headers o.message with
    | .ok session => { h with session, sent := h.sent ++ [o], drained := false }
    | .error _ => h
  | .receive =>
    match h.session.receive with
    | (.ok (some m), session) =>
      { h with session, received := h.received ++ [⟨h.session.registry, m⟩] }
    | (.ok none, session) => { h with session, drained := true }
    | (.error e, session) => { h with session, failures := h.failures ++ [e] }
  | .receiveAll =>
    match h.session.receiveAll with
    | .ok (messages, session) =>
      { h with
        session, drained := true,
        received := h.received ++ messages.map fun m => ⟨h.session.registry, m⟩ }
    | .error e => { h with failures := h.failures ++ [e] }
  | .change op =>
    { h with session := { h.session with registry := h.session.registry.apply op } }

namespace History

@[simp] theorem sent_receive (h : History) : (h.step .receive).sent = h.sent := by
  rw [step]
  split <;> rfl

@[simp] theorem sent_receiveAll (h : History) : (h.step .receiveAll).sent = h.sent := by
  rw [step]
  split <;> rfl

@[simp] theorem sent_change (h : History) (op : Registry.Operation) :
    (h.step (.change op)).sent = h.sent := rfl

end History

def run (p : Protocol) (events : List Event) : History :=
  events.foldl History.step { session := { protocol := p } }

structure Outgoing.Fits (p : Protocol) (o : Outgoing) : Prop where
  order : o.headers.Perm o.message.headerEntries
  shallow : ∀ v ∈ o.message.values, v.depth ≤ p.maxNestingDepth

def Outgoing.Frame (p : Protocol) (o : Outgoing) (frame : Bytes) : Prop :=
  p.appendAs o.headers o.message [] = .ok frame

def Outgoing.Becomes (o : Outgoing) (i : Incoming) : Prop :=
  i.message = o.message.normalize.bound i.registry.binder

/-- The messages on their way, and the bytes that they stand in. -/
structure Queued (p : Protocol) (h : History) (delivered pending : List Outgoing) : Prop where
  protocol : h.session.protocol = p
  failures : h.failures = []
  sent : h.sent = delivered ++ pending
  received : List.Forall₂ Outgoing.Becomes delivered h.received
  buffer : Sequence (Outgoing.Frame p) pending h.session.buffer
  fits : ∀ o ∈ pending, o.Fits p
  drained : h.drained = true → pending = []

section Reading

variable {p : Protocol} {binder : Binder}

theorem takeNext_frames {pending : List Outgoing} {buffer : Bytes} (fits : ∀ o ∈ pending, o.Fits p)
    (framed : Sequence (Outgoing.Frame p) pending buffer) :
    (pending = [] ∧ p.takeNext binder buffer = (.ok none, [])) ∨
      ∃ o later rest, pending = o :: later ∧ Sequence (Outgoing.Frame p) later rest ∧
        p.takeNext binder buffer = (.ok (some (o.message.normalize.bound binder)), rest) := by
  cases framed with
  | nil => exact .inl ⟨rfl, Protocol.takeNext_incomplete Protocol.first_nil⟩
  | @cons o later frame rest head tail =>
    have first := fits o (.head _)
    have front := Protocol.first_of_appendAs binder first.order first.shallow head rest
    have taken := Protocol.takeNext_message front
    rw [List.drop_left] at taken
    exact .inr ⟨o, later, rest, rfl, tail, taken⟩

theorem all_frames {pending : List Outgoing} {buffer : Bytes} (fits : ∀ o ∈ pending, o.Fits p)
    (framed : Sequence (Outgoing.Frame p) pending buffer) : p.all binder buffer =
      .ok (pending.map fun o => o.message.normalize.bound binder, buffer.length) := by
  induction framed with
  | nil => exact Protocol.all_incomplete Protocol.first_nil
  | @cons o pending frame buffer head _ ih =>
    obtain ⟨first, rest⟩ := List.forall_mem_cons.mp fits
    have front := Protocol.first_of_appendAs binder first.order first.shallow head buffer
    rw [Protocol.all_front front, List.drop_left, ih rest, List.length_append]
    rfl

theorem takeAll_frames {pending : List Outgoing} {buffer : Bytes} (fits : ∀ o ∈ pending, o.Fits p)
    (framed : Sequence (Outgoing.Frame p) pending buffer) : p.takeAll binder buffer =
      .ok (pending.map fun o => o.message.normalize.bound binder, []) := by
  rw [Protocol.takeAll, all_frames fits framed]
  change Except.ok (_, buffer.drop buffer.length) = _
  rw [List.drop_length]

end Reading

theorem receive_of_takeNext {s : Session} {answer : Except WireError (Option Message)}
    {rest : Bytes} (h : s.protocol.takeNext s.registry.binder s.buffer = (answer, rest)) :
    s.receive = (answer, { s with buffer := rest }) := by
  rw [receive, h]

theorem receiveAll_of_takeAll {s : Session} {messages : List Message} {rest : Bytes}
    (h : s.protocol.takeAll s.registry.binder s.buffer = .ok (messages, rest)) :
    s.receiveAll = .ok (messages, { s with buffer := rest }) := by
  rw [receiveAll, h]
  rfl

namespace Queued

variable {p : Protocol} {h : History} {delivered pending : List Outgoing}

theorem send (q : Queued p h delivered pending) {o : Outgoing}
    (fits : ∀ frame, o.Frame p frame → o.Fits p) :
    ∃ pending', Queued p (h.step (.send o)) delivered pending' := by
  cases sent : h.session.protocol.appendAs o.headers o.message h.session.buffer with
  | error e =>
    have failed : h.step (.send o) = h := by
      rw [History.step, sendAs, sent]
      rfl
    rw [failed]
    exact ⟨pending, q⟩
  | ok buffer =>
    have step : h.step (.send o) =
        { h with
          session := { h.session with buffer }, sent := h.sent ++ [o], drained := false } := by
      rw [History.step, sendAs, sent]
      rfl
    rw [q.protocol] at sent
    obtain ⟨frame, alone, rfl⟩ := Protocol.appendAs_eq_ok_iff.mp sent
    rw [step]
    refine ⟨pending ++ [o], q.protocol, q.failures, ?_, q.received, q.buffer.snoc alone, ?_,
      nofun⟩
    · rw [q.sent, List.append_assoc]
    · intro other mem
      rcases List.mem_append.mp mem with mem | mem
      · exact q.fits other mem
      · rw [List.mem_singleton.mp mem]
        exact fits frame alone

theorem receive (q : Queued p h delivered pending) :
    ∃ delivered' pending', Queued p (h.step .receive) delivered' pending' := by
  obtain ⟨rfl, failures, sent, received, framed, fits, drained⟩ := q
  rcases takeNext_frames fits framed with ⟨rfl, taken⟩ | ⟨o, later, rest, rfl, tail, taken⟩
  · rw [History.step, receive_of_takeNext taken]
    exact ⟨delivered, [], rfl, failures, sent, received, .nil, nofun, fun _ => rfl⟩
  · rw [History.step, receive_of_takeNext taken]
    refine ⟨delivered ++ [o], later, rfl, failures, ?_, ?_, tail, ?_, ?_⟩
    · rw [sent, List.append_assoc, List.singleton_append]
    · exact List.rel_append received (.cons rfl .nil)
    · exact fun other mem => fits other (.tail _ mem)
    · intro none
      cases drained none

theorem receiveAll (q : Queued p h delivered pending) :
    Queued p (h.step .receiveAll) (delivered ++ pending) [] := by
  obtain ⟨rfl, failures, sent, received, framed, fits, drained⟩ := q
  rw [History.step, receiveAll_of_takeAll (takeAll_frames fits framed)]
  refine ⟨rfl, failures, ?_, List.rel_append received ?_, .nil, nofun, fun _ => rfl⟩
  · rw [List.append_nil]
    exact sent
  · rw [List.map_map]
    exact List.forall₂_map_right_iff.mpr (List.forall₂_same.mpr fun _ _ => rfl)

theorem change (q : Queued p h delivered pending) (op : Registry.Operation) :
    Queued p (h.step (.change op)) delivered pending :=
  ⟨q.protocol, q.failures, q.sent, q.received, q.buffer, q.fits, q.drained⟩

end Queued

/-- No message is sent that a receiver has to refuse. One that cannot be sent may be any. -/
def Event.Fits (p : Protocol) : Event → Prop
  | .send o => ∀ frame, o.Frame p frame → o.Fits p
  | .receive | .receiveAll | .change _ => True

theorem step_queued {p : Protocol} {h : History} {delivered pending : List Outgoing}
    (q : Queued p h delivered pending) {event : Event} (fits : event.Fits p) :
    ∃ delivered' pending', Queued p (h.step event) delivered' pending' := by
  cases event with
  | send o =>
    obtain ⟨pending', q'⟩ := q.send fits
    exact ⟨delivered, pending', q'⟩
  | receive => exact q.receive
  | receiveAll => exact ⟨_, _, q.receiveAll⟩
  | change op => exact ⟨_, _, q.change op⟩

theorem foldl_queued {p : Protocol} (events : List Event) {h : History}
    {delivered pending : List Outgoing} (q : Queued p h delivered pending)
    (fits : ∀ event ∈ events, event.Fits p) :
    ∃ delivered' pending', Queued p (events.foldl History.step h) delivered' pending' := by
  -- each step leaves a queue, with other messages on their way
  induction events generalizing h delivered pending with
  | nil => exact ⟨delivered, pending, q⟩
  | cons event events ih =>
    obtain ⟨first, rest⟩ := List.forall_mem_cons.mp fits
    obtain ⟨_, _, q'⟩ := step_queued q first
    exact ih q' rest

/-- At every moment no read has failed; what was received is the beginning of what was sent, with
the values of each message bound by the registry of the moment when it was received, and all of it
once a read has found the buffer empty; and the buffer holds the frames of the rest. -/
theorem run_fifo (p : Protocol) (events : List Event) (fits : ∀ event ∈ events, event.Fits p) :
    (run p events).failures = [] ∧ ∃ delivered pending,
      (run p events).sent = delivered ++ pending ∧
      List.Forall₂ Outgoing.Becomes delivered (run p events).received ∧
      (∃ frames, List.Forall₂ (Outgoing.Frame p) pending frames ∧
        (run p events).session.buffer = frames.flatten) ∧
      ((run p events).drained = true → pending = []) := by
  have start : Queued p { session := { protocol := p } } [] [] :=
    ⟨rfl, rfl, rfl, .nil, .nil, nofun, nofun⟩
  obtain ⟨delivered, pending, q⟩ := foldl_queued events start fits
  exact ⟨q.failures, delivered, pending, q.sent, q.received, sequence_iff.mp q.buffer, q.drained⟩

/-- The type of the argument is known at the first read and forgotten before the second. -/
def exchange : List Event := [
  .change (.addTarget "t" [.float]),
  .send ⟨[("b", "x"), ("a", "y")], Protocol.sample (.uint 5)⟩,
  .send ⟨[("a", "y"), ("b", "x")], Protocol.sample (.uint 5)⟩,
  .receive,
  .change (.removeTarget "t"),
  .receiveAll]

theorem becomes_sample {headers : List (String × String)} {i : Incoming} {types : List Hint}
    (h : Outgoing.Becomes ⟨headers, Protocol.sample (.uint 5)⟩ i)
    (known : i.registry.binder.parameters "t" = types) :
    i.message = .invocation
      { headers := .ofList [("a", "y"), ("b", "x")], target := "t",
        arguments := coerceArguments types [.int 5, .array []], streamIds := some [] } := by
  subst known
  exact h

theorem run_fifo_exchange :
    let h := run (.ofConfig ⟨100, 1⟩) exchange
    h.failures = [] ∧
    h.sent = [⟨[("b", "x"), ("a", "y")], Protocol.sample (.uint 5)⟩,
      ⟨[("a", "y"), ("b", "x")], Protocol.sample (.uint 5)⟩] ∧
    List.Forall₂ Outgoing.Becomes h.sent h.received ∧
    h.received.map Incoming.message =
      [Protocol.sample (.float ⟨0x4014000000000000⟩), Protocol.sample (.int 5)] ∧
    h.session.buffer = [] := by
  have shallow : ∀ v ∈ (Protocol.sample (.uint 5)).values, v.depth ≤ 1 := by
    simp [Protocol.sample, Message.values, Value.depth, Value.depthItems]
  have fits (headers : List (String × String))
      (order : headers.Perm (Protocol.sample (.uint 5)).headerEntries) :
      Outgoing.Fits (.ofConfig ⟨100, 1⟩) ⟨headers, Protocol.sample (.uint 5)⟩ := ⟨order, shallow⟩
  have all : ∀ event ∈ exchange, event.Fits (.ofConfig ⟨100, 1⟩) := by
    simp only [exchange, List.forall_mem_cons]
    exact ⟨trivial, fun _ _ => fits _ (by decide), fun _ _ => fits _ (by decide), trivial, trivial,
      trivial, fun _ h => absurd h List.not_mem_nil⟩
  obtain ⟨failures, delivered, pending, sent, received, ⟨frames, framed, buffer⟩, drained⟩ :=
    run_fifo (.ofConfig ⟨100, 1⟩) exchange all
  cases drained (by decide +kernel)
  cases framed
  rw [List.append_nil] at sent
  rw [← sent] at received
  have known : (run (.ofConfig ⟨100, 1⟩) exchange).sent =
      [⟨[("b", "x"), ("a", "y")], Protocol.sample (.uint 5)⟩,
        ⟨[("a", "y"), ("b", "x")], Protocol.sample (.uint 5)⟩] := by
    simp only [run, exchange, List.foldl_cons, List.foldl_nil, History.sent_receiveAll,
      History.sent_change, History.sent_receive]
    cbv
  have types : (run (.ofConfig ⟨100, 1⟩) exchange).received.map
      (fun i => i.registry.binder.parameters "t") = [[.float], []] := by decide +kernel
  refine ⟨failures, known, received, ?_, buffer⟩
  rw [known] at received
  generalize (run (.ofConfig ⟨100, 1⟩) exchange).received = got at received types
  obtain _ | ⟨first, _ | ⟨second, _ | _⟩⟩ := received
  simp only [List.map_cons, List.map_nil, List.cons.injEq, and_true] at types
  rw [List.map_cons, List.map_cons, becomes_sample first types.1, becomes_sample second types.2]
  rfl

end Session

end HubPack
