import HubPack.Message.Reader
import HubPack.Proofs.Value.Nesting

/-!
A binder changes the values of a message and nothing else, and only after they are read: reading
with a binder is reading without one and then binding what was read.
-/
namespace HubPack

def Binder.hint? (binder : Binder) (m : Message) (i : Nat) : Option Hint :=
  match m with
  | .invocation m => (binder.parameters m.target)[i]?
  | .streamInvocation m => (binder.parameters m.target)[i]?
  | .streamItem m => binder.item m.id
  | .completion m => binder.result m.id
  | .cancelInvocation _ | .ping | .close _ => none

theorem coerceArguments_eq_mapIdx (hints : List Hint) (vs : List Value) :
    coerceArguments hints vs = vs.mapIdx fun i => coerceTo hints[i]? := by
  induction vs generalizing hints with
  | nil => cases hints <;> rfl
  | cons v vs ih =>
    cases hints with
    | nil =>
      rw [List.mapIdx_cons]
      exact congrArg (v :: ·) (ih [])
    | cons hint hints =>
      rw [coerceArguments, ih, List.mapIdx_cons]
      rfl

def Outcome.mapResult (f : Value → Value) : Outcome → Outcome
  | .result v => .result (f v)
  | o => o

namespace Message

def values : Message → List Value
  | .invocation m => m.arguments
  | .streamInvocation m => m.arguments
  | .streamItem m => [m.item]
  | .completion m => m.outcome.result?.toList
  | .cancelInvocation _ | .ping | .close _ => []

def normalize : Message → Message
  | .invocation m => .invocation { m with arguments := m.arguments.map Value.normalize }
  | .streamInvocation m => .streamInvocation { m with arguments := m.arguments.map Value.normalize }
  | .streamItem m => .streamItem { m with item := m.item.normalize }
  | .completion m => .completion { m with outcome := m.outcome.mapResult Value.normalize }
  | m => m

def bound (binder : Binder) : Message → Message
  | .invocation m =>
    .invocation { m with arguments := coerceArguments (binder.parameters m.target) m.arguments }
  | .streamInvocation m =>
    .streamInvocation
      { m with arguments := coerceArguments (binder.parameters m.target) m.arguments }
  | .streamItem m => .streamItem { m with item := coerceTo (binder.item m.id) m.item }
  | .completion m =>
    .completion { m with outcome := m.outcome.mapResult (coerceTo (binder.result m.id)) }
  | m => m

theorem bound_untyped (m : Message) : m.bound .untyped = m := by
  cases m with
  | completion m =>
    obtain ⟨headers, id, outcome⟩ := m
    cases outcome <;> rfl
  | _ => rfl

theorem values_normalize (m : Message) : m.normalize.values = m.values.map Value.normalize := by
  cases m with
  | completion m =>
    obtain ⟨headers, id, outcome⟩ := m
    cases outcome <;> rfl
  | _ => rfl

theorem values_bound (binder : Binder) (m : Message) :
    (m.bound binder).values = m.values.mapIdx fun i => coerceTo (binder.hint? m i) := by
  cases m with
  | invocation m => exact coerceArguments_eq_mapIdx _ _
  | streamInvocation m => exact coerceArguments_eq_mapIdx _ _
  | completion m =>
    obtain ⟨headers, id, outcome⟩ := m
    cases outcome <;> rfl
  | _ => rfl

end Message

section Reading

variable {limit n : Nat}

theorem readArguments_eq (binder : Binder) (target : String) : readArguments limit binder target =
    coerceArguments (binder.parameters target) <$> readArguments limit .untyped target := by
  have plain : coerceArguments (Binder.untyped.parameters target) = id := rfl
  simp only [readArguments, plain, map_bind, id_map]

theorem readHinted_eq (hint : Option Hint) :
    readHinted limit hint = coerceTo hint <$> readHinted limit none := by
  have plain : coerceTo none = id := rfl
  simp only [readHinted, plain, id_map]

theorem readOutcome_eq (binder : Binder) (id : String) (kind : ResultKind) :
    readOutcome limit binder id kind =
      Outcome.mapResult (coerceTo (binder.result id)) <$> readOutcome limit .untyped id kind := by
  cases kind with
  | error =>
    rw [readOutcome, readOutcome, Functor.map_map]
    rfl
  | void => rfl
  | result =>
    rw [readOutcome, readOutcome, readHinted_eq, Functor.map_map, Functor.map_map]
    rfl

theorem readCompletion_eq (binder : Binder) : readCompletion limit binder n =
    (fun c => { c with outcome := c.outcome.mapResult (coerceTo (binder.result c.id)) }) <$>
      readCompletion limit .untyped n := by
  simp only [readCompletion, map_bind]
  refine bind_congr fun headers => bind_congr fun id => bind_congr fun code => ?_
  cases ResultKind.ofCode? code.toInt with
  | none => rfl
  | some kind =>
    by_cases few : n < kind.fields
    · simp only [if_pos few]
      rfl
    · by_cases many : kind.fields < n
      · simp only [if_neg few, if_pos many]
        rfl
      · simp only [if_neg few, if_neg many]
        rw [readOutcome_eq, bind_map_left, map_bind]
        rfl

theorem readBody_eq (binder : Binder) (type : MessageType) : readBody limit binder n type =
    (fun answer => (answer.1.bound binder, answer.2)) <$> readBody limit .untyped n type := by
  cases type with
  | invocation | streamInvocation =>
    simp only [readBody, map_bind, readArguments_eq binder, bind_map_left]
    rfl
  | streamItem =>
    simp only [readBody, map_bind, readHinted_eq (binder.item _), bind_map_left]
    rfl
  | completion =>
    simp only [readBody, map_bind, readCompletion_eq binder, bind_map_left]
    rfl
  | cancelInvocation =>
    simp only [readBody, map_bind]
    rfl
  | ping => rfl
  | close =>
    simp only [readBody, map_bind]
    refine bind_congr fun error => ?_
    split
    · rfl
    · rw [map_bind]
      rfl

theorem readKnown_eq (binder : Binder) (type : MessageType) : readKnown limit binder n type =
    Message.bound binder <$> readKnown limit .untyped n type := by
  simp only [readKnown]
  split
  · rfl
  · rw [readBody_eq, bind_map_left, map_bind]
    refine bind_congr fun answer => ?_
    rw [map_bind]
    rfl

/-- Reading with a binder is reading without one and then binding the message. -/
theorem readMessage_eq (limit : Nat) (binder : Binder) : readMessage limit binder =
    Option.map (Message.bound binder) <$> readMessage limit .untyped := by
  simp only [readMessage, map_bind]
  refine bind_congr fun n => ?_
  split
  · rfl
  · rw [map_bind]
    refine bind_congr fun code => ?_
    cases MessageType.ofCode? code.toInt with
    | none => rfl
    | some type =>
      simp only
      rw [readKnown_eq, Functor.map_map, Functor.map_map]
      rfl

end Reading

end HubPack
