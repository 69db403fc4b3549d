import HubPack.Proofs.Reading.Protocol

/-!
A stream arrives in chunks. What is received from it depends on its bytes alone, not on where they
are cut: an answer that does not wait for more bytes stays the same when more bytes come.
-/
namespace HubPack

theorem LengthPrefix.readWithin_append {more : Nat} {bs : Bytes}
    (h : readWithin more bs ≠ .ok none) (x : Bytes) :
    readWithin more (bs ++ x) = readWithin more bs := by
  induction bs generalizing more with
  | nil =>
    cases more <;> exact absurd rfl h
  | cons b bs ih =>
    cases more with
    | zero => rfl
    | succ more =>
      rw [List.cons_append, readWithin, readWithin]
      by_cases last : b.toNat < 128
      · rw [if_pos last, if_pos last]
      · rw [readWithin, if_neg last] at h
        have rest : readWithin more bs ≠ .ok none := by
          intro waits
          rw [waits] at h
          exact h rfl
        rw [ih rest]

namespace Framing

theorem locate_append {f : Framing} {src : Bytes}
    (h : ∀ n, f.locate src ≠ .error (.incompleteFrame n)) (x : Bytes) :
    f.locate (src ++ x) = f.locate src := by
  unfold locate at h ⊢
  have known : LengthPrefix.read src ≠ .ok none := by
    intro waits
    rw [waits] at h
    exact h 1 rfl
  have same : LengthPrefix.read (src ++ x) = LengthPrefix.read src :=
    LengthPrefix.readWithin_append known x
  rw [same]
  generalize LengthPrefix.read src = found at h known ⊢
  cases found with
  | error e => rfl
  | ok found =>
    cases found with
    | none => exact absurd rfl known
    | some found =>
      obtain ⟨length, start⟩ := found
      simp only at h ⊢
      by_cases large : f.maxPayload < length
      · rw [if_pos large, if_pos large]
      · rw [if_neg large] at h
        by_cases short : src.length < start + length
        · rw [if_pos short] at h
          exact absurd rfl (h _)
        · have long : ¬(src ++ x).length < start + length := by
            rw [List.length_append]
            omega
          rw [if_neg large, if_neg large, if_neg short, if_neg long]

end Framing

namespace Protocol

variable {p : Protocol} {binder : Binder}

theorem first_append {src : Bytes} (h : ∀ n, p.first binder src ≠ .error (.incompleteFrame n))
    (x : Bytes) : p.first binder (src ++ x) = p.first binder src := by
  have known : ∀ n, p.framing.locate src ≠ .error (.incompleteFrame n) :=
    fun n located => h n (first_of_locate_error located)
  have same := Framing.locate_append known x
  cases located : p.framing.locate src with
  | error e => rw [first_of_locate_error located, first_of_locate_error (same.trans located)]
  | ok span =>
    obtain ⟨-, -, inside⟩ := Framing.locate_ok located
    have payload : span.of (src ++ x) = span.of src := by
      rw [Span.of, Span.of, List.take_append_of_le_length inside]
    rw [first_of_locate located, first_of_locate (same.trans located), payload]

theorem takeNext_message {src : Bytes} {m : Message} {used : Nat}
    (h : p.first binder src = .ok (some m, used)) :
    p.takeNext binder src = (.ok (some m), src.drop used) := by
  rw [takeNext]
  split <;> rename_i found <;> rw [h] at found <;> cases found
  rfl

theorem takeNext_unknown {src : Bytes} {used : Nat} (h : p.first binder src = .ok (none, used)) :
    p.takeNext binder src = p.takeNext binder (src.drop used) := by
  rw [takeNext]
  split <;> rename_i found <;> rw [h] at found <;> cases found
  rfl

theorem takeNext_incomplete {src : Bytes} {n : Nat}
    (h : p.first binder src = .error (.incompleteFrame n)) :
    p.takeNext binder src = (.ok none, src) := by
  rw [takeNext]
  split <;> rename_i found <;> rw [h] at found <;> cases found
  rename_i other
  exact absurd rfl (other n)

theorem takeNext_error {src : Bytes} {e : WireError} (h : p.first binder src = .error e)
    (fatal : ∀ n, e ≠ .incompleteFrame n) : p.takeNext binder src = (.error e, src) := by
  rw [takeNext]
  split <;> rename_i found <;> rw [h] at found <;> cases found
  · exact absurd rfl (fatal _)
  · rfl

/-- A buffer begins with a whole frame, or waits for the rest of one, or is in error. A read goes on
only behind a frame of an unknown message. -/
theorem takeNext_induct (p : Protocol) (binder : Binder)
    {motive : Bytes → Except WireError (Option Message) × Bytes → Prop}
    (message : ∀ {src : Bytes} {m : Message} {used : Nat},
      p.first binder src = .ok (some m, used) → motive src (.ok (some m), src.drop used))
    (unknown : ∀ {src : Bytes} {used : Nat}, p.first binder src = .ok (none, used) →
      motive (src.drop used) (p.takeNext binder (src.drop used)) →
      motive src (p.takeNext binder (src.drop used)))
    (incomplete : ∀ {src : Bytes} {n : Nat},
      p.first binder src = .error (.incompleteFrame n) → motive src (.ok none, src))
    (error : ∀ {src : Bytes} {e : WireError}, p.first binder src = .error e →
      (∀ n, e ≠ .incompleteFrame n) → motive src (.error e, src))
    (src : Bytes) : motive src (p.takeNext binder src) := by
  induction size : src.length using Nat.strongRecOn generalizing src with
  | ind n ih =>
    subst size
    cases front : p.first binder src with
    | ok found =>
      obtain ⟨answer, used⟩ := found
      cases answer with
      | some m =>
        rw [takeNext_message front]
        exact message front
      | none =>
        have bounds := first_used front
        rw [takeNext_unknown front]
        exact unknown front (ih _ (by rw [List.length_drop]; omega) _ rfl)
    | error e =>
      by_cases waits : ∃ n, e = .incompleteFrame n
      · obtain ⟨n, rfl⟩ := waits
        rw [takeNext_incomplete front]
        exact incomplete front
      · have fatal : ∀ n, e ≠ .incompleteFrame n := fun n same => waits ⟨n, same⟩
        rw [takeNext_error front fatal]
        exact error front fatal

theorem takeNext_shrinks {src rest : Bytes} {m : Message}
    (h : p.takeNext binder src = (.ok (some m), rest)) : rest.length < src.length := by
  induction src using p.takeNext_induct binder with
  | message front =>
    have bounds := first_used front
    cases h
    rw [List.length_drop]
    omega
  | unknown front ih =>
    have shorter := ih h
    rw [List.length_drop] at shorter
    omega
  | incomplete => cases h
  | error => cases h

/-- More bytes change an answer only where it is that there is no message yet. -/
theorem takeNext_append (p : Protocol) (binder : Binder) (src x : Bytes) :
    p.takeNext binder (src ++ x) =
      match p.takeNext binder src with
      | (.ok none, rest) => p.takeNext binder (rest ++ x)
      | (answer, rest) => (answer, rest ++ x) := by
  have more {src : Bytes} {answer : Option Message} {used : Nat}
      (front : p.first binder src = .ok (answer, used)) :
      p.first binder (src ++ x) = .ok (answer, used) ∧
        (src ++ x).drop used = src.drop used ++ x := by
    refine ⟨?_, List.drop_append_of_le_length (first_used front).2⟩
    rw [first_append (by rw [front]; nofun), front]
  induction src using p.takeNext_induct binder with
  | message front => rw [takeNext_message (more front).1, (more front).2]
  | unknown front ih => rw [takeNext_unknown (more front).1, (more front).2, ih]
  | incomplete => rfl
  | error front fatal =>
    have same : p.first binder (_ ++ x) = _ := first_append (by rw [front]; simpa using fatal) x
    rw [takeNext_error (same.trans front) fatal]

theorem takeNext_failed {src rest : Bytes} {e : WireError}
    (h : p.takeNext binder src = (.error e, rest)) (x : Bytes) :
    p.takeNext binder (rest ++ x) = (.error e, rest ++ x) := by
  induction src using p.takeNext_induct binder with
  | message => cases h
  | unknown _ ih => exact ih h
  | incomplete => cases h
  | error front fatal =>
    cases h
    rw [takeNext_append, takeNext_error front fatal]

/-- What is received from a buffer until it waits for more bytes or is in error. -/
structure Received where
  messages : List Message := []
  error : Option WireError := none
  buffer : Bytes := []

def drain (p : Protocol) (binder : Binder) (src : Bytes) : Received :=
  match h : p.takeNext binder src with
  | (.ok (some m), rest) =>
    have := takeNext_shrinks h
    let later := p.drain binder rest
    { later with messages := m :: later.messages }
  | (.ok none, rest) => { buffer := rest }
  | (.error e, rest) => { error := some e, buffer := rest }
termination_by src.length

def feed (p : Protocol) (binder : Binder) (r : Received) (chunk : Bytes) : Received :=
  let later := p.drain binder (r.buffer ++ chunk)
  { later with messages := r.messages ++ later.messages }

def answers (p : Protocol) (binder : Binder) :
    Bytes → List Bytes → List (Except WireError (Option Message))
  | _, [] => []
  | buffer, chunk :: chunks =>
    let (answer, rest) := p.takeNext binder (buffer ++ chunk)
    answer :: p.answers binder rest chunks

theorem drain_message {src rest : Bytes} {m : Message}
    (h : p.takeNext binder src = (.ok (some m), rest)) :
    p.drain binder src =
      { p.drain binder rest with messages := m :: (p.drain binder rest).messages } := by
  rw [drain]
  split <;> rename_i found <;> rw [h] at found <;> cases found
  rfl

theorem drain_waiting {src rest : Bytes} (h : p.takeNext binder src = (.ok none, rest)) :
    p.drain binder src = { buffer := rest } := by
  rw [drain]
  split <;> rename_i found <;> rw [h] at found <;> cases found
  rfl

theorem drain_failed {src rest : Bytes} {e : WireError}
    (h : p.takeNext binder src = (.error e, rest)) :
    p.drain binder src = { error := some e, buffer := rest } := by
  rw [drain]
  split <;> rename_i found <;> rw [h] at found <;> cases found
  rfl

theorem drain_eq_of_takeNext {a b : Bytes} (h : p.takeNext binder a = p.takeNext binder b) :
    p.drain binder a = p.drain binder b := by
  cases taken : p.takeNext binder b with
  | mk answer rest =>
    rw [taken] at h
    match answer with
    | .ok (some m) => rw [drain_message h, drain_message taken]
    | .ok none => rw [drain_waiting h, drain_waiting taken]
    | .error e => rw [drain_failed h, drain_failed taken]

theorem drain_append (src x : Bytes) :
    p.drain binder (src ++ x) = p.feed binder (p.drain binder src) x := by
  -- on the length of the buffer, which a message that is taken shortens
  induction size : src.length using Nat.strongRecOn generalizing src with
  | ind n ih =>
    subst size
    have more := takeNext_append p binder src x
    cases taken : p.takeNext binder src with
    | mk answer rest =>
      rw [taken] at more
      match answer with
      | .ok (some m) =>
        rw [drain_message more, drain_message taken, ih _ (takeNext_shrinks taken) rest rfl]
        rfl
      | .ok none =>
        rw [drain_waiting taken, drain_eq_of_takeNext more]
        rfl
      | .error e =>
        rw [drain_failed taken, drain_failed more, feed, drain_failed (takeNext_failed taken x)]
        rfl

theorem feed_feed (r : Received) (x y : Bytes) :
    p.feed binder (p.feed binder r x) y = p.feed binder r (x ++ y) := by
  have join : p.drain binder (r.buffer ++ (x ++ y)) =
      p.feed binder (p.drain binder (r.buffer ++ x)) y := by
    rw [← List.append_assoc, drain_append]
  simp only [feed] at join ⊢
  rw [join, List.append_assoc]

theorem feed_nil : p.feed binder {} [] = {} := by
  rw [feed, List.append_nil, drain_waiting (takeNext_incomplete first_nil)]
  rfl

theorem foldl_feed (p : Protocol) (binder : Binder) (chunks : List Bytes) (r : Received) :
    chunks.foldl (p.feed binder) (p.feed binder r []) = p.feed binder r chunks.flatten := by
  -- feeding nothing drains what is there, so that each chunk joins the one before it
  induction chunks generalizing r with
  | nil => rfl
  | cons chunk chunks ih =>
    have again : p.feed binder r chunk = p.feed binder (p.feed binder r chunk) [] := by
      rw [feed_feed, List.append_nil]
    rw [List.foldl_cons, feed_feed, List.nil_append, again, ih, feed_feed, List.flatten_cons]

theorem answers_failed {src rest : Bytes} {e : WireError}
    (h : p.takeNext binder src = (.error e, rest)) (chunks : List Bytes) :
    p.answers binder rest chunks = chunks.map fun _ => .error e := by
  induction chunks generalizing src rest with
  | nil => rfl
  | cons chunk chunks ih =>
    have failed := takeNext_failed h chunk
    rw [answers, failed, List.map_cons]
    exact congrArg _ (ih failed)

theorem first_take_stop {src : Bytes} {span : Span} (h : p.framing.locate src = .ok span)
    (x : Bytes) : p.first binder (src.take span.stop ++ x) = p.first binder src := by
  obtain ⟨frame, rest, framed, split, stop⟩ := Framing.locate_sound h
  generalize span.of src = payload at framed
  rw [split, stop, List.take_left, first_frame framed, first_frame framed]

/-- The messages, how they end and the bytes that stay do not depend on the cuts of the stream;
after an error every read answers that error; and a frame is read the same before all bytes. -/
theorem received_of_chunks (p : Protocol) (binder : Binder) :
    (∀ chunks : List Bytes,
      chunks.foldl (p.feed binder) {} = p.feed binder {} chunks.flatten) ∧
    (∀ (src rest : Bytes) (e : WireError), p.takeNext binder src = (.error e, rest) →
      ∀ chunks, p.answers binder rest chunks = chunks.map fun _ => .error e) ∧
    ∀ (src : Bytes) (span : Span), p.framing.locate src = .ok span →
      ∀ x, p.first binder (src.take span.stop ++ x) = p.first binder src := by
  refine ⟨?_, fun _ _ _ => answers_failed, fun _ _ => first_take_stop⟩
  intro chunks
  have run := foldl_feed p binder chunks {}
  rwa [feed_nil] at run

/-- Two messages in four chunks, and the first byte of a third; a frame above the limit. -/
theorem received_of_chunks_pings :
    [[2, 0x91], [], [6, 2], [0x91, 6, 3]].foldl ((ofConfig ⟨100, 1⟩).feed .untyped) {} =
      { messages := [.ping, .ping], buffer := [3] } ∧
    (∀ chunks, (ofConfig ⟨100, 1⟩).answers .untyped [101] chunks =
      chunks.map fun _ => .error (.frameTooLarge 101 100)) ∧
    ∀ x, (ofConfig ⟨100, 1⟩).first .untyped ([2, 0x91, 6] ++ x) = .ok (some .ping, 3) := by
  obtain ⟨chunked, failed, framed⟩ := received_of_chunks (ofConfig ⟨100, 1⟩) .untyped
  have one : (ofConfig ⟨100, 1⟩).takeNext .untyped [2, 0x91, 6, 2, 0x91, 6, 3] =
      (.ok (some .ping), [2, 0x91, 6, 3]) := by cbv
  have two : (ofConfig ⟨100, 1⟩).takeNext .untyped [2, 0x91, 6, 3] =
      (.ok (some .ping), [3]) := by cbv
  have waits : (ofConfig ⟨100, 1⟩).takeNext .untyped [3] = (.ok none, [3]) := by cbv
  refine ⟨?_, ?_, ?_⟩
  · rw [chunked]
    change (ofConfig ⟨100, 1⟩).drain .untyped [2, 0x91, 6, 2, 0x91, 6, 3] = _
    rw [drain_message one, drain_message two, drain_waiting waits]
  · have large : (ofConfig ⟨100, 1⟩).takeNext .untyped [101] =
        (.error (.frameTooLarge 101 100), [101]) := by cbv
    exact failed _ _ _ large
  · intro x
    have front := framed [2, 0x91, 6] ⟨1, 3⟩ (by cbv) x
    refine front.trans ?_
    cbv

end Protocol

end HubPack
