import HubPack.Proofs.Reading.Value
import HubPack.Message.Reader

namespace HubPack

variable {α β : Type} {e : WireError}

/-- The first read does what the second does, unless it fails with the error before. -/
def Restricts (e : WireError) (r r' : Reader α) : Prop :=
  ∀ bs, r bs = r' bs ∨ ∃ rest, r bs = .error e rest

namespace Restricts

theorem self (r : Reader α) : Restricts e r r := fun _ => .inl rfl

theorem fails (r : Reader α) : Restricts e (throw e) r := fun bs => .inr ⟨bs, rfl⟩

theorem bind {r r' : Reader α} {k k' : α → Reader β} (h : Restricts e r r')
    (hk : ∀ a, Restricts e (k a) (k' a)) : Restricts e (r >>= k) (r' >>= k') := by
  intro bs
  rcases h bs with same | ⟨rest, failed⟩
  · cases answer : r bs with
    | ok a mid =>
      rw [bind_of_ok answer, bind_of_ok (same.symm.trans answer)]
      exact hk a mid
    | error f mid =>
      rw [bind_of_error answer, bind_of_error (same.symm.trans answer)]
      exact .inl rfl
  · exact .inr ⟨rest, bind_of_error failed⟩

theorem map (f : α → β) {r r' : Reader α} (h : Restricts e r r') :
    Restricts e (f <$> r) (f <$> r') := by
  rw [← bind_pure_comp, ← bind_pure_comp]
  exact h.bind fun a => self _

theorem many {r r' : Reader α} (h : Restricts e r r') (n : Nat) :
    Restricts e (readMany r n) (readMany r' n) := by
  induction n with
  | zero => exact self _
  | succ n ih => exact h.bind fun a => ih.bind fun as => self _

theorem pair {r r' : Reader α} {s s' : Reader β} (h : Restricts e r r') (hs : Restricts e s s') :
    Restricts e (readPair r s) (readPair r' s') :=
  h.bind fun _ => hs.bind fun _ => self _

end Restricts

section Limit

open Restricts

variable {low high : Nat}

theorem restricts_within (low high : Nat) {levels more : Nat} (h : levels ≤ more) :
    Restricts (.malformedValue (.nesting low)) (readValueWithin low levels)
      (readValueWithin high more) := by
  induction levels generalizing more with
  | zero =>
    rw [readValueWithin, readValueWithin]
    refine (self _).bind fun m => ?_
    cases m.form with
    | array | map => exact (self _).bind fun n => fails _
    | _ => exact self _
  | succ levels ih =>
    obtain ⟨more, rfl⟩ : ∃ k, more = k + 1 := ⟨more - 1, by omega⟩
    have inner := ih (Nat.le_of_succ_le_succ h)
    rw [readValueWithin, readValueWithin]
    refine (self _).bind fun m => ?_
    cases m.form with
    | array => exact (self _).bind fun n => (inner.many n).map _
    | map => exact (self _).bind fun n => ((inner.pair inner).many n).map _
    | _ => exact self _

theorem restricts_value (h : low ≤ high) :
    Restricts (.malformedValue (.nesting low)) (readValue low) (readValue high) :=
  restricts_within low high h

theorem readValue_deep {limit : Nat} {v : Value} {e : Bytes} (form : Wire.Encodes v e)
    (deep : limit < v.depth) (rest : Bytes) :
    ∃ left, readValue limit (e ++ rest) = .error (.malformedValue (.nesting limit)) left := by
  have read := (reads_value v.depth).complete ⟨form, Nat.le_refl _⟩ rest
  rcases restricts_value (Nat.le_of_lt deep) (e ++ rest) with same | failed
  · have within := (reads_value limit).eq_ok_iff.mp (same.trans read)
    exact absurd within.2 (Nat.not_le.mpr deep)
  · exact failed

variable {binder : Binder}

theorem restricts_arguments (h : low ≤ high) (target : String) :
    Restricts (.malformedValue (.nesting low)) (readArguments low binder target)
      (readArguments high binder target) :=
  (self _).bind fun n => ((restricts_value h).many n).map _

theorem restricts_hinted (h : low ≤ high) (hint : Option Hint) :
    Restricts (.malformedValue (.nesting low)) (readHinted low hint) (readHinted high hint) :=
  (restricts_value h).map _

theorem restricts_outcome (h : low ≤ high) (id : String) (kind : ResultKind) :
    Restricts (.malformedValue (.nesting low)) (readOutcome low binder id kind)
      (readOutcome high binder id kind) := by
  cases kind with
  | result => exact (restricts_hinted h _).map _
  | _ => exact self _

theorem restricts_completion (h : low ≤ high) (n : Nat) :
    Restricts (.malformedValue (.nesting low)) (readCompletion low binder n)
      (readCompletion high binder n) := by
  refine (self _).bind fun headers => (self _).bind fun id => (self _).bind fun code => ?_
  simp only
  cases ResultKind.ofCode? code.toInt with
  | none => exact self _
  | some kind =>
    by_cases few : n < kind.fields
    · simp only [if_pos few]
      exact self _
    · by_cases many : kind.fields < n
      · simp only [if_neg few, if_pos many]
        exact self _
      · simp only [if_neg few, if_neg many]
        exact (restricts_outcome h id kind).bind fun o => self _

theorem restricts_body (h : low ≤ high) (n : Nat) (type : MessageType) :
    Restricts (.malformedValue (.nesting low)) (readBody low binder n type)
      (readBody high binder n type) := by
  cases type with
  | invocation | streamInvocation =>
    exact (self _).bind fun headers => (self _).bind fun id => (self _).bind fun target =>
      (restricts_arguments h target).bind fun arguments => self _
  | streamItem =>
    exact (self _).bind fun headers => (self _).bind fun id =>
      (restricts_hinted h _).bind fun item => self _
  | completion => exact (restricts_completion h n).bind fun c => self _
  | _ => exact self _

theorem restricts_known (h : low ≤ high) (n : Nat) (type : MessageType) :
    Restricts (.malformedValue (.nesting low)) (readKnown low binder n type)
      (readKnown high binder n type) := by
  unfold readKnown
  split
  · exact self _
  · have skip : Restricts (.malformedValue (.nesting low)) (skipValue low) (skipValue high) :=
      (restricts_value h).bind fun v => self _
    exact (restricts_body h n type).bind fun answer => (skip.many _).bind fun _ => self _

theorem restricts_message (h : low ≤ high) :
    Restricts (.malformedValue (.nesting low)) (readMessage low binder)
      (readMessage high binder) := by
  refine (self _).bind fun n => ?_
  split
  · exact self _
  · refine (self _).bind fun code => ?_
    simp only
    cases MessageType.ofCode? code.toInt with
    | none => exact self _
    | some type => exact (restricts_known h n type).map _

end Limit

end HubPack
