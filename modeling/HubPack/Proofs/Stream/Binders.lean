import HubPack.Proofs.Stream.Frames

namespace HubPack

namespace Message

def target? : Message → Option String
  | .invocation m => some m.target
  | .streamInvocation m => some m.target
  | _ => none

def hollow : Message → Message
  | .invocation m => .invocation { m with arguments := m.arguments.map fun _ => .nil }
  | .streamInvocation m => .streamInvocation { m with arguments := m.arguments.map fun _ => .nil }
  | .streamItem m => .streamItem { m with item := .nil }
  | .completion m => .completion { m with outcome := m.outcome.mapResult fun _ => .nil }
  | m => m

theorem hollow_bound (binder : Binder) (m : Message) : (m.bound binder).hollow = m.hollow := by
  have count (hints : List Hint) (vs : List Value) :
      ((coerceArguments hints vs).map fun _ => Value.nil) = vs.map fun _ => Value.nil := by
    rw [List.map_const', List.map_const', coerceArguments_eq_mapIdx, List.length_mapIdx]
  cases m with
  | invocation m => simp only [bound, hollow, count]
  | streamInvocation m => simp only [bound, hollow, count]
  | completion m =>
    obtain ⟨headers, id, outcome⟩ := m
    cases outcome <;> rfl
  | _ => rfl

end Message

structure Binder.Agree (a b : Binder) (m : Message) : Prop where
  parameters : ∀ target ∈ m.target?, a.parameters target = b.parameters target
  result : ∀ id ∈ m.id?, a.result id = b.result id
  item : ∀ id ∈ m.id?, a.item id = b.item id

theorem Binder.Agree.bound_eq {a b : Binder} {m : Message} (h : a.Agree b m) :
    m.bound a = m.bound b := by
  cases m with
  | invocation m => rw [Message.bound, Message.bound, h.parameters m.target rfl]
  | streamInvocation m => rw [Message.bound, Message.bound, h.parameters m.target rfl]
  | streamItem m => rw [Message.bound, Message.bound, h.item m.id rfl]
  | completion m => rw [Message.bound, Message.bound, h.result m.id rfl]
  | _ => rfl

namespace Protocol

variable {p : Protocol} {a b : Binder} {src : Bytes}

theorem all_eq (p : Protocol) (binder : Binder) (src : Bytes) :
    p.all binder src = (p.all .untyped src).map fun (messages, used) =>
      (messages.map (Message.bound binder), used) := by
  obtain ⟨answers, frames, rest, e, framed, rfl, stops⟩ := exists_frames p src
  have bound : p.Delivers binder _ frames := ⟨answers, framed, rfl⟩
  have plain : p.Delivers .untyped _ frames := ⟨answers, framed, rfl⟩
  have same : Message.bound .untyped = id := funext Message.bound_untyped
  rw [bound.all, plain.all, same, List.map_id]
  by_cases waits : ∃ n, e = .incompleteFrame n
  · obtain ⟨n, rfl⟩ := waits
    rw [all_incomplete (stops binder), all_incomplete (stops .untyped)]
    simp [Except.map]
  · have fatal := not_exists.mp waits
    rw [all_error (stops binder) fatal, all_error (stops .untyped) fatal]
    rfl

theorem first_eq_of_agree
    (h : ∀ m used, p.first .untyped src = .ok (some m, used) → a.Agree b m) :
    p.first a src = p.first b src := by
  rw [first_eq p a, first_eq p b]
  cases front : p.first .untyped src with
  | error e => rfl
  | ok found =>
    obtain ⟨answer, used⟩ := found
    cases answer with
    | none => rfl
    | some m =>
      change Except.ok (some (m.bound a), used) = Except.ok (some (m.bound b), used)
      rw [(h m used front).bound_eq]

theorem all_eq_of_agree
    (h : ∀ messages used, p.all .untyped src = .ok (messages, used) → ∀ m ∈ messages, a.Agree b m) :
    p.all a src = p.all b src := by
  rw [all_eq p a, all_eq p b]
  cases whole : p.all .untyped src with
  | error e => rfl
  | ok found =>
    obtain ⟨messages, used⟩ := found
    have same : messages.map (Message.bound a) = messages.map (Message.bound b) :=
      List.map_congr_left fun m mem => (h messages used whole m mem).bound_eq
    change Except.ok (messages.map (Message.bound a), used) =
      Except.ok (messages.map (Message.bound b), used)
    rw [same]

/-- Reading with a binder is reading without one and then moving each value towards its type: no
hint makes a read fail or changes what it takes. Binders that agree on the targets and ids of the
messages in a buffer read the same. -/
theorem binding_follows_reading (p : Protocol) (binder : Binder) :
    (∀ src, p.first binder src = (p.first .untyped src).map fun (answer, used) =>
      (answer.map (Message.bound binder), used)) ∧
    (∀ src, p.all binder src = (p.all .untyped src).map fun (messages, used) =>
      (messages.map (Message.bound binder), used)) ∧
    (∀ m : Message, (m.bound binder).hollow = m.hollow ∧
      (m.bound binder).values = m.values.mapIdx fun i => coerceTo (binder.hint? m i)) ∧
    ∀ (other : Binder) (src : Bytes),
      ((∀ m used, p.first .untyped src = .ok (some m, used) → binder.Agree other m) →
        p.first binder src = p.first other src) ∧
      ((∀ messages used, p.all .untyped src = .ok (messages, used) →
          ∀ m ∈ messages, binder.Agree other m) →
        p.all binder src = p.all other src) :=
  ⟨first_eq p binder, all_eq p binder, fun m => ⟨m.hollow_bound binder, m.values_bound binder⟩,
    fun _ _ => ⟨first_eq_of_agree, all_eq_of_agree⟩⟩

def knowing (other : Hint) : Binder where
  parameters target := if target = "t" then [.float] else [other]
  result id := if id = "1" then some .float else some other

def answered : Bytes :=
  [8, 0x95, 1, 0x80, 0xc0, 0xa1, 116, 0x91, 5, 7, 0x95, 3, 0x80, 0xa1, 49, 3, 7]

theorem binding_follows_reading_answered :
    (ofConfig ⟨100, 1⟩).all .untyped answered =
      .ok ([.invocation { target := "t", arguments := [.int 5] },
        .completion { id := "1", outcome := .result (.int 7) }], 17) ∧
    (ofConfig ⟨100, 1⟩).first (knowing .int) answered =
      (ofConfig ⟨100, 1⟩).first (knowing .string) answered ∧
    (ofConfig ⟨100, 1⟩).all (knowing .int) answered =
      (ofConfig ⟨100, 1⟩).all (knowing .string) answered := by
  have one : (ofConfig ⟨100, 1⟩).first .untyped answered =
      .ok (some (.invocation { target := "t", arguments := [.int 5] }), 9) := by cbv
  have two : (ofConfig ⟨100, 1⟩).first .untyped (answered.drop 9) =
      .ok (some (.completion { id := "1", outcome := .result (.int 7) }), 8) := by cbv
  have both : (ofConfig ⟨100, 1⟩).all .untyped answered =
      .ok ([.invocation { target := "t", arguments := [.int 5] },
        .completion { id := "1", outcome := .result (.int 7) }], 17) := by
    rw [all_front one, all_front two, List.drop_drop]
    change Except.map _ (Except.map _ ((ofConfig ⟨100, 1⟩).all .untyped [])) = _
    rw [all_incomplete first_nil]
    rfl
  have target : (knowing .int).Agree (knowing .string)
      (.invocation { target := "t", arguments := [.int 5] }) := by
    constructor
    all_goals
      intro name known
      cases known
    decide
  have id : (knowing .int).Agree (knowing .string)
      (.completion { id := "1", outcome := .result (.int 7) }) := by
    constructor
    all_goals
      intro name known
      cases known
    · decide
    · decide
  obtain ⟨-, -, -, agree⟩ := binding_follows_reading (ofConfig ⟨100, 1⟩) (knowing .int)
  obtain ⟨front, all⟩ := agree (knowing .string) answered
  refine ⟨both, front fun m used read => ?_, all fun messages used read => ?_⟩
  · cases one.symm.trans read
    exact target
  · cases both.symm.trans read
    simpa using ⟨target, id⟩

end Protocol

end HubPack
