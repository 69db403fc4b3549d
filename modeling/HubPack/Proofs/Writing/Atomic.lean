import HubPack.Protocol
import HubPack.Proofs.Reading.Frame
import HubPack.Proofs.Writing.Success

namespace HubPack
open Wire

section Refused

theorem onlyRefuses_headers (entries : List (String × String)) :
    (writeHeaders entries).OnlyRefuses :=
  onlyRefuses_list _ _ fun _ _ => .of_success rfl

theorem onlyRefuses_arguments (arguments : List Value) :
    (writeArguments arguments).OnlyRefuses := by
  rw [writeArguments, writeItems_eq_join]
  exact onlyRefuses_list _ _ fun v _ => onlyRefuses_value v

theorem onlyRefuses_streamIds (ids : List String) : (writeStreamIds ids).OnlyRefuses :=
  onlyRefuses_list _ _ fun _ _ => .of_success rfl

theorem onlyRefuses_optional {α : Type} {write : α → Written} (h : ∀ a, (write a).OnlyRefuses)
    (o : Option α) : ∀ w ∈ (o.map write).toList, w.OnlyRefuses := by
  cases o with
  | none => simp
  | some a => simpa using h a

theorem onlyRefuses_text (s : String) : (writeString s).OnlyRefuses := .of_success rfl

theorem onlyRefuses_textOrNil (s : Option String) : (writeStringOrNil s).OnlyRefuses :=
  .of_success (writeStringOrNil_error s)

theorem onlyRefuses_outcome (o : Outcome) : ∀ w ∈ o.fields, w.OnlyRefuses := by
  cases o with
  | error text => simpa [Outcome.fields] using onlyRefuses_text text
  | void => simp [Outcome.fields]
  | result v => simpa [Outcome.fields] using onlyRefuses_value v

namespace Message

variable {m : Message} {headers : List (String × String)}

theorem onlyRefuses_fields (m : Message) (headers : List (String × String)) :
    ∀ w ∈ m.fields headers, w.OnlyRefuses := by
  cases m with
  | invocation m =>
    simp only [fields, List.cons_append, List.nil_append, List.forall_mem_cons]
    exact ⟨onlyRefuses_headers _, onlyRefuses_textOrNil _, onlyRefuses_text _,
      onlyRefuses_arguments _, onlyRefuses_optional onlyRefuses_streamIds _⟩
  | streamInvocation m =>
    simp only [fields, List.cons_append, List.nil_append, List.forall_mem_cons]
    exact ⟨onlyRefuses_headers _, onlyRefuses_text _, onlyRefuses_text _,
      onlyRefuses_arguments _, onlyRefuses_optional onlyRefuses_streamIds _⟩
  | streamItem m =>
    simpa [fields] using ⟨onlyRefuses_headers _, onlyRefuses_text _, onlyRefuses_value _⟩
  | completion m =>
    simp only [fields, List.cons_append, List.nil_append, List.forall_mem_cons]
    exact ⟨onlyRefuses_headers _, onlyRefuses_text _, .of_success rfl, onlyRefuses_outcome _⟩
  | cancelInvocation m => simpa [fields] using ⟨onlyRefuses_headers _, onlyRefuses_text _⟩
  | ping => simp [fields]
  | close m =>
    simp only [fields, List.cons_append, List.nil_append, List.forall_mem_cons]
    exact ⟨onlyRefuses_textOrNil _, onlyRefuses_optional (fun _ => .of_success rfl) _⟩

theorem onlyRefuses_writeAs (m : Message) (headers : List (String × String)) :
    (m.writeAs headers).OnlyRefuses := by
  refine (onlyRefuses_counted _ _ _).append (.join ?_)
  exact List.forall_mem_cons.mpr ⟨.of_success rfl, onlyRefuses_fields m headers⟩

theorem payloadAs_error {e : WireError} (h : m.payloadAs headers = .error e) :
    ∃ cause, e = .serialization cause := by
  rw [payloadAs, Written.toExcept] at h
  split at h
  · cases h
  · rename_i failed
    cases h
    exact onlyRefuses_writeAs m headers _ failed

end Message

end Refused

/-- A change to a buffer, step by step: what an error leaves is what the steps before it made. -/
abbrev Put := EStateM WireError Bytes Unit

namespace LengthPrefix

def put (n : Nat) : Put :=
  match write n with
  | .ok length => modify (· ++ length)
  | .error e => throw e

theorem write_of_le (f : Framing) {n : Nat} (small : n ≤ f.maxPayload) :
    write n = .ok (encode n) := by
  have most := f.le_maxLength
  rw [write, if_neg (by omega)]

end LengthPrefix

namespace Framing

def put (f : Framing) (payload : Bytes) : Put := do
  if f.maxPayload < payload.length then throw (.frameTooLarge payload.length f.maxPayload)
  LengthPrefix.put payload.length
  modify (· ++ payload)

theorem put_eq (f : Framing) (payload dst : Bytes) : f.put payload dst =
    match f.append payload dst with
    | .ok dst' => .ok () dst'
    | .error e => .error e dst := by
  rw [append_eq, put]
  split
  · rfl
  · rename_i small
    have length : LengthPrefix.put payload.length =
        modify (· ++ LengthPrefix.encode payload.length) := by
      rw [LengthPrefix.put, LengthPrefix.write_of_le f (Nat.not_lt.mp small)]
    rw [length, ← List.append_assoc]
    rfl

end Framing

namespace Protocol

def putAs (p : Protocol) (headers : List (String × String)) (m : Message) : Put :=
  match m.payloadAs headers with
  | .ok payload => p.framing.put payload
  | .error e => throw e

/-- Where a message is refused at any step, the buffer is as it was. -/
theorem putAs_eq (p : Protocol) (headers : List (String × String)) (m : Message) (dst : Bytes) :
    p.putAs headers m dst = match p.appendAs headers m dst with
      | .ok dst' => .ok () dst'
      | .error e => .error e dst := by
  rw [putAs, appendAs]
  cases m.payloadAs headers with
  | ok payload => exact p.framing.put_eq payload dst
  | error e => rfl

theorem appendAs_eq_of_payloadAs (p : Protocol) {headers : List (String × String)} {m : Message}
    {payload : Bytes} (written : m.payloadAs headers = .ok payload) (dst : Bytes) :
    p.appendAs headers m dst = p.framing.append payload dst := by
  rw [appendAs, written]
  rfl

theorem appendAs_succeeds_iff {p : Protocol} {headers : List (String × String)} {m : Message}
    {dst : Bytes} : (∃ dst', p.appendAs headers m dst = .ok dst') ↔
      ∃ payload, m.payloadAs headers = .ok payload ∧
        payload.length ≤ p.framing.maxPayload := by
  cases written : m.payloadAs headers with
  | ok payload => simp [appendAs_eq_of_payloadAs p written, Framing.append_eq_ok_iff]
  | error e => simp [appendAs, written, bind, Except.bind]

/-- A message is put into a buffer exactly if it has a payload and that is within the limit: behind
what is there, with a length before it that no other is shorter than, and so that the frame is found
again. The buffer is as it was wherever an error comes, and the check of the length itself is one
that nothing fails. -/
theorem append_all_or_nothing (c : Config) (headers : List (String × String)) (m : Message)
    (dst : Bytes) :
    ((∃ dst', (ofConfig c).appendAs headers m dst = .ok dst') ↔
      ∃ payload, m.payloadAs headers = .ok payload ∧
        payload.length ≤ min c.maxFrameSize LengthPrefix.maxLength) ∧
    (∀ payload dst', m.payloadAs headers = .ok payload →
      (ofConfig c).appendAs headers m dst = .ok dst' → ∃ length,
        dst' = dst ++ (length ++ payload) ∧
        LengthPrefix.read length = .ok (some (payload.length, length.length)) ∧
        (∀ src used, LengthPrefix.read src = .ok (some (payload.length, used)) →
          length.length ≤ used) ∧
        (ofConfig c).framing.locate (length ++ payload) =
          .ok ⟨length.length, (length ++ payload).length⟩) ∧
    (∀ payload, m.payloadAs headers = .ok payload →
      min c.maxFrameSize LengthPrefix.maxLength < payload.length →
      (ofConfig c).appendAs headers m dst = .error
        (.frameTooLarge payload.length (min c.maxFrameSize LengthPrefix.maxLength))) ∧
    (∀ e, m.payloadAs headers = .error e → (∃ cause, e = .serialization cause) ∧
      (ofConfig c).appendAs headers m dst = .error e) ∧
    ((ofConfig c).putAs headers m dst = match (ofConfig c).appendAs headers m dst with
      | .ok dst' => .ok () dst'
      | .error e => .error e dst) ∧
    ∀ n length, length ≤ (Framing.ofMax n).maxPayload →
      LengthPrefix.write length = .ok (LengthPrefix.encode length) := by
  refine ⟨appendAs_succeeds_iff, ?_, ?_, ?_, putAs_eq _ headers m dst, ?_⟩
  · intro payload dst' written sent
    rw [appendAs_eq_of_payloadAs _ written] at sent
    obtain ⟨small, rfl⟩ := Framing.append_eq_ok_iff.mp sent
    have most := (ofConfig c).framing.le_maxLength
    rw [LengthPrefix.maxLength] at most
    have form : Prefix 4 payload.length (LengthPrefix.encode payload.length) :=
      LengthPrefix.encode_prefix (by omega)
    have back := LengthPrefix.read_complete form []
    have found := Framing.locate_whole form small []
    rw [List.append_nil] at back found
    refine ⟨_, rfl, back, fun src used => LengthPrefix.length_encode_le_used, ?_⟩
    rw [found, List.length_append]
  · intro payload written long
    rw [appendAs_eq_of_payloadAs _ written, Framing.append_eq]
    exact if_pos long
  · intro e failed
    refine ⟨Message.payloadAs_error failed, ?_⟩
    rw [appendAs, failed]
    rfl
  · intro n length small
    exact LengthPrefix.write_of_le _ small

theorem append_all_or_nothing_ping :
    (∃ length, [7, 2, 0x91, 6] = [7] ++ (length ++ [0x91, 6]) ∧
      (ofConfig ⟨2, 0⟩).framing.locate (length ++ [0x91, 6]) =
        .ok ⟨length.length, (length ++ [0x91, 6]).length⟩) ∧
    (ofConfig ⟨1, 0⟩).appendAs [] .ping [7] = .error (.frameTooLarge 2 1) ∧
    (ofConfig ⟨1, 0⟩).putAs [] .ping [7] = .error (.frameTooLarge 2 1) [7] := by
  have written : Message.ping.payloadAs [] = .ok [0x91, 6] := by cbv
  have sent : (ofConfig ⟨2, 0⟩).appendAs [] .ping [7] = .ok [7, 2, 0x91, 6] := by cbv
  obtain ⟨-, -, long, -, put, -⟩ := append_all_or_nothing ⟨1, 0⟩ [] .ping [7]
  have refused := long _ written (by decide)
  rw [refused] at put
  obtain ⟨length, split, -, -, found⟩ :=
    (append_all_or_nothing ⟨2, 0⟩ [] .ping [7]).2.1 _ _ written sent
  exact ⟨⟨length, split, found⟩, refused, put⟩

end Protocol

end HubPack
