import HubPack.Proofs.LengthPrefix
import HubPack.Proofs.Stream.Payloads

namespace HubPack.Framing
open LengthPrefix

variable {f : Framing} {src : Bytes} {length start : Nat}

section Front

theorem states_append (h : States 4 src length start) (x : Bytes) :
    States 4 (src ++ x) length start := by
  have found := read_eq_some_iff.mpr h
  have known : read src ≠ .ok none := by
    rw [found]
    nofun
  exact read_eq_some_iff.mp ((readWithin_append known x).trans found)

theorem states_unique {length' start' : Nat} (h : States 4 src length start)
    (h' : States 4 src length' start') : length = length' ∧ start = start' := by
  have same := (read_eq_some_iff.mpr h).symm.trans (read_eq_some_iff.mpr h')
  cases same
  exact ⟨rfl, rfl⟩

theorem not_states_of_cut (cut : read src = .ok none) : ¬States 4 src length start := by
  intro known
  rw [read_eq_some_iff.mpr known] at cut
  cases cut

/-- What is found at the front of `src`, and why. -/
inductive Located (f : Framing) (src : Bytes) : Except WireError Span → Prop where
  | overflow : Overflows 4 src → Located f src (.error (.malformedValue .lengthPrefix))
  | cut : read src = .ok none → Located f src (.error (.incompleteFrame 1))
  | large {length start : Nat} : States 4 src length start → f.maxPayload < length →
      Located f src (.error (.frameTooLarge length f.maxPayload))
  | short {length start needed : Nat} : States 4 src length start → length ≤ f.maxPayload →
      0 < needed → src.length + needed = start + length →
      Located f src (.error (.incompleteFrame needed))
  | whole {length start : Nat} : States 4 src length start → length ≤ f.maxPayload →
      start + length ≤ src.length → Located f src (.ok ⟨start, start + length⟩)

theorem located (f : Framing) (src : Bytes) : Located f src (f.locate src) := by
  rw [locate]
  cases found : read src with
  | error e =>
    obtain ⟨rfl, overflow⟩ := readWithin_eq_error_iff.mp found
    exact .overflow overflow
  | ok answer =>
    cases answer with
    | none => exact .cut found
    | some front =>
      obtain ⟨length, start⟩ := front
      have front := read_eq_some_iff.mp found
      simp only
      split
      · rename_i large
        exact .large front large
      · rename_i small
        split
        · rename_i short
          exact .short front (Nat.not_lt.mp small) (by omega) (by omega)
        · rename_i whole
          exact .whole front (Nat.not_lt.mp small) (Nat.not_lt.mp whole)

theorem locate_eq_iff {r : Except WireError Span} : f.locate src = r ↔ Located f src r := by
  constructor
  · rintro rfl
    exact located f src
  · intro h
    cases h with
    | overflow overflow =>
      have found : read src = _ := readWithin_eq_error_iff.mpr ⟨rfl, overflow⟩
      rw [locate, found]
    | cut cut => rw [locate, cut]
    | large front large =>
      rw [locate, read_eq_some_iff.mpr front]
      exact if_pos large
    | @short length start needed front small positive missing =>
      have count : start + length - src.length = needed := by omega
      rw [locate, read_eq_some_iff.mpr front, ← count]
      exact (if_neg (Nat.not_lt.mpr small)).trans (if_pos (by omega))
    | whole front small whole =>
      rw [locate, read_eq_some_iff.mpr front]
      exact (if_neg (Nat.not_lt.mpr small)).trans (if_neg (Nat.not_lt.mpr whole))

theorem locate_malformed_iff :
    (∃ cause, f.locate src = .error (.malformedValue cause)) ↔ Overflows 4 src := by
  simp only [locate_eq_iff]
  constructor
  · rintro ⟨cause, h⟩
    cases h with
    | overflow overflow => exact overflow
  · exact fun overflow => ⟨_, .overflow overflow⟩

theorem locate_tooLarge_iff {size most : Nat} :
    f.locate src = .error (.frameTooLarge size most) ↔
      most = f.maxPayload ∧ f.maxPayload < size ∧ ∃ start, States 4 src size start := by
  rw [locate_eq_iff]
  constructor
  · intro h
    cases h with
    | large front large => exact ⟨rfl, large, _, front⟩
  · rintro ⟨rfl, large, start, front⟩
    exact .large front large

theorem locate_ok_iff {stop : Nat} :
    f.locate src = .ok ⟨start, stop⟩ ↔ ∃ length, States 4 src length start ∧
      length ≤ f.maxPayload ∧ stop = start + length ∧ stop ≤ src.length := by
  rw [locate_eq_iff]
  constructor
  · intro h
    cases h with
    | whole front small whole => exact ⟨_, front, small, rfl, whole⟩
  · rintro ⟨length, front, small, rfl, whole⟩
    exact .whole front small whole

theorem locate_incomplete_iff :
    (∃ needed, f.locate src = .error (.incompleteFrame needed)) ↔ ¬Overflows 4 src ∧
      ∀ length start, States 4 src length start →
        length ≤ f.maxPayload ∧ src.length < start + length := by
  constructor
  · rintro ⟨needed, waits⟩
    constructor
    · intro overflow
      rw [locate_eq_iff.mpr (.overflow overflow)] at waits
      cases waits
    · intro length start front
      cases locate_eq_iff.mp waits with
      | cut cut => exact absurd front (not_states_of_cut cut)
      | short known small positive missing =>
        obtain ⟨rfl, rfl⟩ := states_unique known front
        exact ⟨small, by omega⟩
  · rintro ⟨possible, short⟩
    cases h : f.locate src with
    | error e =>
      cases locate_eq_iff.mp h with
      | overflow overflow => exact absurd overflow possible
      | cut => exact ⟨1, rfl⟩
      | large front large => exact absurd (short _ _ front).1 (Nat.not_le.mpr large)
      | short => exact ⟨_, rfl⟩
    | ok span =>
      cases locate_eq_iff.mp h with
      | whole front small whole => exact absurd (short _ _ front).2 (Nat.not_lt.mpr whole)

end Front

/-- The frame at the front of `src` needs `needed` bytes more. Fewer never settle it. If its length
is there, then fewer leave it in need of the others, and that many make it whole, whatever they are
and whatever follows them. -/
structure Needs (f : Framing) (src : Bytes) (needed : Nat) : Prop where
  positive : 1 ≤ needed
  waits : ∀ x : Bytes, x.length < needed → ∃ k, f.locate (src ++ x) = .error (.incompleteFrame k)
  fewer : ∀ length start, States 4 src length start → ∀ x : Bytes, x.length < needed →
    f.locate (src ++ x) = .error (.incompleteFrame (needed - x.length))
  enough : ∀ length start, States 4 src length start → ∀ x : Bytes, needed ≤ x.length →
    f.locate (src ++ x) = .ok ⟨start, start + length⟩

theorem needs_of_incomplete {needed : Nat} (h : f.locate src = .error (.incompleteFrame needed)) :
    f.Needs src needed := by
  cases locate_eq_iff.mp h with
  | cut cut =>
    refine ⟨Nat.le_refl 1, fun x short => ?_, fun _ _ known => absurd known (not_states_of_cut cut),
      fun _ _ known => absurd known (not_states_of_cut cut)⟩
    rw [List.length_eq_zero_iff.mp (Nat.lt_one_iff.mp short), List.append_nil]
    exact ⟨1, h⟩
  | short front small more missing =>
    have fewer (x : Bytes) (short : x.length < needed) :
        f.locate (src ++ x) = .error (.incompleteFrame (needed - x.length)) := by
      refine locate_eq_iff.mpr (.short (states_append front x) small (by omega) ?_)
      rw [List.length_append]
      omega
    refine ⟨more, fun x short => ⟨_, fewer x short⟩, fun _ _ _ => fewer, fun n k known x long => ?_⟩
    obtain ⟨rfl, rfl⟩ := states_unique known front
    refine locate_eq_iff.mpr (.whole (states_append known x) small ?_)
    rw [List.length_append]
    omega

section Taking

/-- Takes the first payload off a buffer step by step: first what stands before the payload, then
the payload. -/
def pull (f : Framing) : EStateM WireError Bytes (Option Bytes) := do
  match f.locate (← get) with
  | .ok span =>
    modify (List.drop span.start)
    let size := span.stop - span.start
    modifyGet fun rest => (some (rest.take size), rest.drop size)
  | .error (.incompleteFrame _) => pure none
  | .error e => throw e

theorem pull_of_ok {start stop : Nat} (h : f.locate src = .ok ⟨start, stop⟩) :
    f.pull src =
      .ok (some ((src.drop start).take (stop - start))) ((src.drop start).drop (stop - start)) := by
  have first : f.pull src = _ := bind_of_ok (a := src) rfl
  rw [first, h]
  rfl

theorem pull_of_incomplete {needed : Nat} (h : f.locate src = .error (.incompleteFrame needed)) :
    f.pull src = .ok none src := by
  have first : f.pull src = _ := bind_of_ok (a := src) rfl
  rw [first, h]
  rfl

theorem pull_of_error {e : WireError} (h : f.locate src = .error e)
    (fatal : ∀ needed, e ≠ .incompleteFrame needed) : f.pull src = .error e src := by
  have first : f.pull src = _ := bind_of_ok (a := src) rfl
  rw [first, h]
  cases e with
  | incompleteFrame needed => exact absurd rfl (fatal needed)
  | _ => rfl

theorem first?_of_error {e : WireError} (h : f.locate src = .error e)
    (fatal : ∀ needed, e ≠ .incompleteFrame needed) : f.first? src = .error e := by
  rw [first?, h]
  cases e with
  | incompleteFrame needed => exact absurd rfl (fatal needed)
  | _ => rfl

theorem taken_of_ok {start stop : Nat} (h : f.locate src = .ok ⟨start, stop⟩) :
    ∃ head payload rest, src = head ++ payload ++ rest ∧ head.length = start ∧
      (head ++ payload).length = stop ∧ f.first? src = .ok (some (payload, stop)) ∧
      f.take src = .ok (some payload, rest) ∧ f.pull src = .ok (some payload) rest := by
  obtain ⟨-, ordered, inside⟩ := locate_ok h
  simp only at ordered inside
  have payload : (Span.mk start stop).of src = (src.drop start).take (stop - start) := by
    rw [Span.of, List.drop_take]
  have rest : (src.drop start).drop (stop - start) = src.drop stop := by
    rw [List.drop_drop, Nat.add_sub_cancel' ordered]
  have found : f.first? src = .ok (some ((src.drop start).take (stop - start), stop)) := by
    rw [first?, h, ← payload]
  refine ⟨src.take start, _, src.drop stop, ?_, ?_, ?_, found, ?_, rest ▸ pull_of_ok h⟩
  · rw [← rest, List.append_assoc, List.take_append_drop, List.take_append_drop]
  · rw [List.length_take]
    omega
  · rw [List.length_append, List.length_take, List.length_take, List.length_drop]
    omega
  · rw [take, found]
    rfl

end Taking

/-- A buffer is malformed exactly if it begins with five bytes that no length has, and too large
exactly if it begins with a length above the limit, whatever follows; it holds a frame exactly if
it begins with a length within the limit and as many bytes after it; and in all other cases it needs
more bytes, of which the count is the truth. A read takes a whole frame off the buffer, no more and
no less, and leaves the buffer as it is if there is none or an error. -/
theorem locate_earliest (n : Nat) (src : Bytes) :
    let f := ofMax n
    let limit := min n (2 ^ 31 - 1)
    ((∃ cause, f.locate src = .error (.malformedValue cause)) ↔ Overflows 4 src) ∧
    (∀ size most, f.locate src = .error (.frameTooLarge size most) ↔
      most = limit ∧ limit < size ∧ ∃ start, States 4 src size start) ∧
    (∀ start stop, f.locate src = .ok ⟨start, stop⟩ ↔ ∃ length, States 4 src length start ∧
      length ≤ limit ∧ stop = start + length ∧ stop ≤ src.length) ∧
    ((∃ needed, f.locate src = .error (.incompleteFrame needed)) ↔ ¬Overflows 4 src ∧
      ∀ length start, States 4 src length start →
        length ≤ limit ∧ src.length < start + length) ∧
    (∀ needed, f.locate src = .error (.incompleteFrame needed) → f.Needs src needed) ∧
    (∀ start stop, f.locate src = .ok ⟨start, stop⟩ →
      ∃ head payload rest, src = head ++ payload ++ rest ∧ head.length = start ∧
        (head ++ payload).length = stop ∧ f.first? src = .ok (some (payload, stop)) ∧
        f.take src = .ok (some payload, rest) ∧ f.pull src = .ok (some payload) rest) ∧
    (∀ needed, f.locate src = .error (.incompleteFrame needed) →
      f.first? src = .ok none ∧ f.take src = .ok (none, src) ∧ f.pull src = .ok none src) ∧
    ∀ e, f.locate src = .error e → (∀ needed, e ≠ .incompleteFrame needed) →
      f.first? src = .error e ∧ f.take src = .error e ∧ f.pull src = .error e src := by
  intro f limit
  refine ⟨locate_malformed_iff, fun _ _ => locate_tooLarge_iff, fun _ _ => locate_ok_iff,
    locate_incomplete_iff, fun _ => needs_of_incomplete, fun _ _ => taken_of_ok, ?_, ?_⟩
  · intro needed waits
    refine ⟨?_, take_incomplete waits, pull_of_incomplete waits⟩
    rw [first?, waits]
  · intro e failed fatal
    have found := first?_of_error failed fatal
    refine ⟨found, ?_, pull_of_error failed fatal⟩
    rw [take, found]
    rfl

theorem locate_earliest_samples :
    (ofMax 100).Needs [6, 97, 98] 4 ∧
    (ofMax 100).pull [6, 97, 98] = .ok none [6, 97, 98] ∧
    (∃ head payload rest, [2, 7, 8, 9] = head ++ payload ++ rest ∧ head.length = 1 ∧
      (head ++ payload).length = 3 ∧ (ofMax 100).pull [2, 7, 8, 9] = .ok (some payload) rest) ∧
    (ofMax 100).pull [0xc8, 1, 5] = .error (.frameTooLarge 200 100) [0xc8, 1, 5] := by
  have cut : (ofMax 100).locate [6, 97, 98] = .error (.incompleteFrame 4) := by cbv
  have whole : (ofMax 100).locate [2, 7, 8, 9] = .ok ⟨1, 3⟩ := by cbv
  have large : (ofMax 100).locate [0xc8, 1, 5] = .error (.frameTooLarge 200 100) := by cbv
  obtain ⟨-, -, -, -, needs, -, waits, -⟩ := locate_earliest 100 [6, 97, 98]
  obtain ⟨-, -, -, -, -, taken, -⟩ := locate_earliest 100 [2, 7, 8, 9]
  obtain ⟨-, -, -, -, -, -, -, failed⟩ := locate_earliest 100 [0xc8, 1, 5]
  obtain ⟨head, payload, rest, split, start, stop, -, -, pulled⟩ := taken 1 3 whole
  refine ⟨needs 4 cut, (waits 4 cut).2.2, ⟨head, payload, rest, split, start, stop, pulled⟩,
    (failed _ large ?_).2.2⟩
  intro needed same
  cases same

end HubPack.Framing
