import HubPack.Proofs.Stream.Fifo

namespace HubPack

theorem TextMap.encard_keys {α : Type} (m : TextMap α) :
    {key | (m.get? key).isSome}.encard = m.size := by
  have keys : {key | (m.get? key).isSome} = ((m.toList.map Prod.fst).toFinset : Set String) := by
    ext key
    simp [get?, Option.isSome_iff_exists, lookup_eq_some_iff m.distinct]
  rw [keys, Set.encard_coe_eq_coe_finsetCard,
    List.toFinset_card_of_nodup (List.pairwise_map.mpr m.distinct), List.length_map, size]

namespace Registry

def run (ops : List Operation) : Registry :=
  ops.foldl Registry.apply ∅

namespace Operation

def target? : Operation → Option String
  | .addTarget target _ | .removeTarget target => some target
  | .awaitResult _ _ | .awaitStream _ _ | .complete _ => none

def id? : Operation → Option String
  | .addTarget _ _ | .removeTarget _ => none
  | .awaitResult id _ | .awaitStream id _ | .complete id => some id

def parameters? : Operation → Option (List Hint)
  | .addTarget _ parameters => some parameters
  | .removeTarget _ | .awaitResult _ _ | .awaitStream _ _ | .complete _ => none

def pending? : Operation → Option Pending
  | .awaitResult _ result => some (.result result)
  | .awaitStream _ item => some (.stream item)
  | .addTarget _ _ | .removeTarget _ | .complete _ => none

end Operation

def lastAbout (key? : Operation → Option String) (key : String) (ops : List Operation) :
    Option Operation :=
  (ops.filter fun op => key? op = some key).getLast?

section History

variable {key? : Operation → Option String}

theorem lastAbout_concat (key : String) (ops : List Operation) (op : Operation) :
    lastAbout key? key (ops ++ [op]) =
      if key? op = some key then some op else lastAbout key? key ops := by
  rw [lastAbout, List.filter_append]
  by_cases about : key? op = some key
  · simp [about]
  · simp [about, lastAbout]

theorem key_of_lastAbout {key : String} {ops : List Operation} {op : Operation}
    (h : lastAbout key? key ops = some op) : key? op = some key := by
  have mem := List.mem_of_getLast? h
  simpa using (List.mem_filter.mp mem).2

/-- A table that starts empty, and in which every operation sets what is under its key alone. -/
theorem get?_run {α : Type} {table : Registry → TextMap α} {left : Operation → Option α}
    (start : table ∅ = ∅)
    (step : ∀ r op key, (table (r.apply op)).get? key =
      if key? op = some key then left op else (table r).get? key)
    (ops : List Operation) (key : String) :
    (table (run ops)).get? key = (lastAbout key? key ops).bind left := by
  -- from the last operation on, which decides if it is about the key
  induction ops using List.reverseRecOn with
  | nil =>
    rw [run, List.foldl_nil, start]
    rfl
  | append_singleton ops op ih =>
    have last : run (ops ++ [op]) = (run ops).apply op := List.foldl_concat ..
    rw [last, step, ih, lastAbout_concat]
    split <;> rfl

end History

theorem get?_targets_apply (r : Registry) (op : Operation) (target : String) :
    (r.apply op).targets.get? target =
      if op.target? = some target then op.parameters? else r.targets.get? target := by
  cases op with
  | addTarget name parameters =>
    simp [apply, addTarget, TextMap.get?_insert, Operation.target?, Operation.parameters?, eq_comm]
  | removeTarget name =>
    simp [apply, removeTarget, TextMap.get?_erase, Operation.target?, Operation.parameters?,
      eq_comm]
  | awaitResult | awaitStream | complete => rfl

theorem get?_pending_apply (r : Registry) (op : Operation) (id : String) :
    (r.apply op).pending.get? id =
      if op.id? = some id then op.pending? else r.pending.get? id := by
  cases op with
  | awaitResult name result =>
    simp [apply, awaitResult, TextMap.get?_insert, Operation.id?, Operation.pending?, eq_comm]
  | awaitStream name item =>
    simp [apply, awaitStream, TextMap.get?_insert, Operation.id?, Operation.pending?, eq_comm]
  | complete name =>
    simp [apply, complete, TextMap.get?_erase, Operation.id?, Operation.pending?, eq_comm]
  | addTarget | removeTarget => rfl

theorem get?_targets_run (ops : List Operation) (target : String) :
    (run ops).targets.get? target =
      (lastAbout Operation.target? target ops).bind Operation.parameters? :=
  get?_run rfl get?_targets_apply ops target

theorem get?_pending_run (ops : List Operation) (id : String) :
    (run ops).pending.get? id = (lastAbout Operation.id? id ops).bind Operation.pending? :=
  get?_run rfl get?_pending_apply ops id

/-- The last operation about a target has put it there. -/
def Registered (ops : List Operation) (target : String) : Prop :=
  ∃ parameters, lastAbout Operation.target? target ops = some (.addTarget target parameters)

/-- The last operation about an id has started to wait for its answer. -/
def Awaited (ops : List Operation) (id : String) : Prop :=
  ∃ hint, lastAbout Operation.id? id ops = some (.awaitResult id hint) ∨
    lastAbout Operation.id? id ops = some (.awaitStream id hint)

theorem isSome_targets_run (ops : List Operation) (target : String) :
    ((run ops).targets.get? target).isSome ↔ Registered ops target := by
  rw [get?_targets_run, Registered]
  cases last : lastAbout Operation.target? target ops with
  | none => simp
  | some op =>
    have key := key_of_lastAbout last
    cases op <;> simp_all [Operation.target?, Operation.parameters?]

theorem isSome_pending_run (ops : List Operation) (id : String) :
    ((run ops).pending.get? id).isSome ↔ Awaited ops id := by
  rw [get?_pending_run, Awaited]
  cases last : lastAbout Operation.id? id ops with
  | none => simp
  | some op =>
    have key := key_of_lastAbout last
    cases op <;> simp_all [Operation.id?, Operation.pending?]

structure AnswersBy (r : Registry) (ops : List Operation) : Prop where
  parameters : ∀ target, r.binder.parameters target =
    match lastAbout Operation.target? target ops with
    | some (.addTarget _ parameters) => parameters
    | _ => []
  result : ∀ id, r.binder.result id =
    match lastAbout Operation.id? id ops with
    | some (.awaitResult _ result) => some result
    | some (.awaitStream _ _) => some .dynamic
    | _ => none
  item : ∀ id, r.binder.item id =
    match lastAbout Operation.id? id ops with
    | some (.awaitResult _ result) => some result
    | some (.awaitStream _ item) => some item
    | _ => none
  removes : ∀ target, (r.removeTarget target).1 ↔ Registered ops target
  completes : ∀ id, (r.complete id).1 ↔ Awaited ops id
  targets : r.targets.size = {target | Registered ops target}.encard
  pending : r.pending.size = {id | Awaited ops id}.encard

theorem answersBy_run (ops : List Operation) : AnswersBy (run ops) ops where
  parameters target := by
    simp only [binder, get?_targets_run]
    rcases lastAbout Operation.target? target ops with _ | _ | _ | _ | _ | _ <;> rfl
  result id := by
    simp only [binder, get?_pending_run]
    rcases lastAbout Operation.id? id ops with _ | _ | _ | _ | _ | _ <;> rfl
  item id := by
    simp only [binder, get?_pending_run]
    rcases lastAbout Operation.id? id ops with _ | _ | _ | _ | _ | _ <;> rfl
  removes := isSome_targets_run ops
  completes := isSome_pending_run ops
  targets := by
    rw [← TextMap.encard_keys]
    exact congrArg Set.encard (Set.ext (isSome_targets_run ops))
  pending := by
    rw [← TextMap.encard_keys]
    exact congrArg Set.encard (Set.ext (isSome_pending_run ops))

structure LeavesOthers (r : Registry) (op : Operation) : Prop where
  target : ∀ target, op.target? ≠ some target →
    (r.apply op).binder.parameters target = r.binder.parameters target ∧
      ((r.apply op).removeTarget target).1 = (r.removeTarget target).1
  id : ∀ id, op.id? ≠ some id →
    (r.apply op).binder.result id = r.binder.result id ∧
      (r.apply op).binder.item id = r.binder.item id ∧
      ((r.apply op).complete id).1 = (r.complete id).1
  targets : op.target? = none → (r.apply op).targets = r.targets
  pending : op.id? = none → (r.apply op).pending = r.pending

theorem apply_leavesOthers (r : Registry) (op : Operation) : LeavesOthers r op where
  target target other := by
    have same : (r.apply op).targets.get? target = r.targets.get? target := by
      rw [get?_targets_apply, if_neg other]
    simp only [binder, removeTarget, same, and_self]
  id id other := by
    have same : (r.apply op).pending.get? id = r.pending.get? id := by
      rw [get?_pending_apply, if_neg other]
    simp only [binder, complete, same, and_self]
  targets none := TextMap.ext_get? fun key => by
    rw [get?_targets_apply, none, if_neg nofun]
  pending none := TextMap.ext_get? fun key => by
    rw [get?_pending_apply, none, if_neg nofun]

end Registry

namespace Session

def Event.change? : Event → Option Registry.Operation
  | .change op => some op
  | .send _ | .receive | .receiveAll => none

theorem registry_step (h : History) (event : Event) : (h.step event).session.registry =
    match event.change? with
    | some op => h.session.registry.apply op
    | none => h.session.registry := by
  cases event with
  | send o =>
    rw [History.step, sendAs]
    cases h.session.protocol.appendAs o.headers o.message h.session.buffer <;> rfl
  | receive =>
    rw [History.step, receive]
    rcases h.session.protocol.takeNext h.session.registry.binder h.session.buffer with
      ⟨_ | _ | _, _⟩ <;> rfl
  | receiveAll =>
    rw [History.step, receiveAll]
    cases h.session.protocol.takeAll h.session.registry.binder h.session.buffer <;> rfl
  | change op => rfl

/-- Whatever is sent and received meanwhile, a session has the registry of the changes made. -/
theorem registry_run (p : Protocol) (events : List Event) :
    (run p events).session.registry = Registry.run (events.filterMap Event.change?) := by
  induction events using List.reverseRecOn with
  | nil => rfl
  | append_singleton events event ih =>
    have last : run p (events ++ [event]) = (run p events).step event := List.foldl_concat ..
    rw [last, registry_step, ih, List.filterMap_append, Registry.run, Registry.run,
      List.foldl_append]
    cases event <;> rfl

end Session

namespace Registry

/-- A registry answers as its history says; an operation changes no answer about another key, nor
about a key of the other kind; and a handle answers the same, also that of a session that has made
the changes while messages came and went. -/
theorem answers_by_history (ops : List Operation) :
    AnswersBy (run ops) ops ∧
    (∀ op, LeavesOthers (run ops) op) ∧
    (∀ n, Binder.forward^[n] (run ops).binder = (run ops).binder) ∧
    ∀ p events, (Session.run p events).session.binder =
      (run (events.filterMap Session.Event.change?)).binder := by
  refine ⟨answersBy_run ops, apply_leavesOthers (run ops), ?_, ?_⟩
  · exact fun n => Function.iterate_fixed rfl n
  · intro p events
    rw [← Session.registry_run p events]
    rfl

/-- A target and an id of one name: the target goes, and a stream takes the place of a result. -/
def namesakes : List Operation := [
  .addTarget "a" [.int],
  .awaitResult "a" .string,
  .awaitStream "a" .float,
  .removeTarget "a"]

theorem answers_by_history_namesakes : (run namesakes).binder.parameters "a" = [] ∧
    (run namesakes).binder.result "a" = some .dynamic ∧
    (run namesakes).binder.item "a" = some .float ∧
    ((run namesakes).apply (.addTarget "a" [])).binder.item "a" =
      (run namesakes).binder.item "a" ∧
    ((run namesakes).apply (.complete "b")).binder.result "a" =
      (run namesakes).binder.result "a" ∧
    ((run namesakes).apply (.complete "b")).targets = (run namesakes).targets := by
  obtain ⟨answers, others, -, -⟩ := answers_by_history namesakes
  refine ⟨answers.parameters "a", answers.result "a", answers.item "a", ?_, ?_, ?_⟩
  · exact ((others (.addTarget "a" [])).id "a" nofun).2.1
  · exact ((others (.complete "b")).id "a" (by decide)).1
  · exact (others (.complete "b")).targets rfl

end Registry

end HubPack
