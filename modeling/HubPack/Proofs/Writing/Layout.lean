import HubPack.LengthPrefix
import HubPack.Proofs.Writing.Success

/-!
A payload as one value. To write a message is to write the array of its members, so that a reader of
values that knows nothing of messages finds in a payload that array and nothing after it.
-/
namespace HubPack
open Wire

section Layout

def Value.ofHeaders (headers : List (String × String)) : Value :=
  .map (headers.map fun (key, value) => (.string key, .string value))

def Value.ofText : Option String → Value
  | some s => .string s
  | none => .nil

def Value.ofTexts (texts : List String) : Value := .array (texts.map .string)

def Outcome.members : Outcome → List Value
  | .error text => [.int 1, .string text]
  | .void => [.int 2]
  | .result value => [.int 3, value]

def Message.members (headers : List (String × String)) : Message → List Value
  | .invocation m =>
    [.int 1, .ofHeaders headers, .ofText m.id, .string m.target, .array m.arguments]
      ++ (m.streamIds.map .ofTexts).toList
  | .streamItem m => [.int 2, .ofHeaders headers, .string m.id, m.item]
  | .completion m => [.int 3, .ofHeaders headers, .string m.id] ++ m.outcome.members
  | .streamInvocation m =>
    [.int 4, .ofHeaders headers, .string m.id, .string m.target, .array m.arguments]
      ++ (m.streamIds.map .ofTexts).toList
  | .cancelInvocation m => [.int 5, .ofHeaders headers, .string m.id]
  | .ping => [.int 6]
  | .close m => [.int 7, .ofText m.error] ++ (m.allowReconnect.map .bool).toList

def Message.toValue (headers : List (String × String)) (m : Message) : Value :=
  .array (m.members headers)

end Layout

theorem map_optional {α β γ : Type} {f : α → β} {g : α → γ} {h : β → γ}
    (same : ∀ a, h (f a) = g a) (o : Option α) : (o.map f).toList.map h = (o.map g).toList := by
  cases o with
  | none => rfl
  | some a => exact congrArg (fun c => [c]) (same a)

section Writing

theorem writeValue_array (items : List Value) :
    writeValue (.array items) = writeArrayHeader items.length ++ .join (items.map writeValue) := by
  rw [writeValue, writeItems_eq_join]

theorem writeValue_ofHeaders (headers : List (String × String)) :
    writeValue (.ofHeaders headers) = writeHeaders headers := by
  rw [Value.ofHeaders, writeValue, writeEntries_eq_join, List.length_map, List.map_map]
  rfl

theorem writeValue_ofText (s : Option String) : writeValue (.ofText s) = writeStringOrNil s := by
  cases s <;> rfl

theorem writeValue_ofTexts (texts : List String) :
    writeValue (.ofTexts texts) = writeStreamIds texts := by
  rw [Value.ofTexts, writeValue_array, List.length_map, List.map_map]
  rfl

theorem map_writeValue_outcome (o : Outcome) :
    o.members.map writeValue = writeInteger o.kind.code :: o.fields := by
  cases o <;> rfl

theorem map_writeValue_members (headers : List (String × String)) (m : Message) :
    (m.members headers).map writeValue = writeInteger m.type.code :: m.fields headers := by
  -- once the fields agree, the code of the type is compared with the table of codes
  cases m with
  | invocation m | streamInvocation m =>
    simp only [Message.members, List.map_append, List.map_cons, List.map_nil,
      writeValue_ofHeaders, writeValue_ofText, map_optional writeValue_ofTexts]
    rfl
  | completion m =>
    simp only [Message.members, List.map_append, List.map_cons, List.map_nil,
      writeValue_ofHeaders, map_writeValue_outcome]
    rfl
  | streamItem m | cancelInvocation m =>
    simp only [Message.members, List.map_cons, List.map_nil, writeValue_ofHeaders]
    rfl
  | ping => rfl
  | close m =>
    have flag : ∀ b, writeValue (.bool b) = writeBool b := fun b => rfl
    simp only [Message.members, List.map_append, List.map_cons, List.map_nil, writeValue_ofText,
      map_optional flag]
    rfl

theorem length_members (headers : List (String × String)) (m : Message) :
    (m.members headers).length = m.arity := by
  have length := congrArg List.length (map_writeValue_members headers m)
  rw [List.length_map, List.length_cons] at length
  rw [length, arity_eq headers m, Nat.add_comm]

theorem writeAs_eq_writeValue (headers : List (String × String)) (m : Message) :
    m.writeAs headers = writeValue (m.toValue headers) := by
  rw [Message.toValue, writeValue_array, length_members, map_writeValue_members, Message.writeAs]

end Writing

section Normal

theorem normalize_ofHeaders (headers : List (String × String)) :
    (Value.ofHeaders headers).normalize = .ofHeaders headers := by
  rw [Value.ofHeaders, Value.normalize, Value.normalizeEntries_eq_map, List.map_map]
  rfl

theorem normalize_array (items : List Value) :
    (Value.array items).normalize = .array (items.map Value.normalize) := by
  rw [Value.normalize, Value.normalizeItems_eq_map]

theorem normalize_ofTexts (texts : List String) :
    (Value.ofTexts texts).normalize = .ofTexts texts := by
  rw [Value.ofTexts, normalize_array, List.map_map]
  rfl

theorem normalize_ofText (s : Option String) : (Value.ofText s).normalize = .ofText s := by
  cases s <;> rfl

theorem map_normalize_outcome (o : Outcome) :
    o.members.map Value.normalize = (o.mapResult Value.normalize).members := by
  cases o <;> rfl

theorem map_normalize_members (headers : List (String × String)) (m : Message) :
    (m.members headers).map Value.normalize = m.normalize.members headers := by
  cases m with
  | invocation m | streamInvocation m =>
    simp only [Message.members, List.map_append, List.map_cons, List.map_nil,
      normalize_ofHeaders, normalize_ofText, normalize_array, map_optional normalize_ofTexts]
    rfl
  | completion m =>
    simp only [Message.members, List.map_append, List.map_cons, List.map_nil,
      normalize_ofHeaders, map_normalize_outcome]
    rfl
  | streamItem m | cancelInvocation m =>
    simp only [Message.members, List.map_cons, List.map_nil, normalize_ofHeaders]
    rfl
  | ping => rfl
  | close m =>
    have flag : ∀ b, (Value.bool b).normalize = .bool b := fun b => rfl
    simp only [Message.members, List.map_append, List.map_cons, List.map_nil, normalize_ofText,
      map_optional flag]
    rfl

theorem normalize_toValue (headers : List (String × String)) (m : Message) :
    (m.toValue headers).normalize = m.normalize.toValue headers := by
  rw [Message.toValue, normalize_array, map_normalize_members, Message.toValue]

end Normal

theorem distinct_headerEntries (m : Message) : (m.headerEntries.map Prod.fst).Nodup := by
  rw [Message.headerEntries]
  cases m.headers? with
  | none => exact List.nodup_nil
  | some headers => exact List.pairwise_map.mpr headers.distinct

/-- A payload is the array of the members of its message, in the order of the layout and with one
pair for each header: it is a form of this array, in which every count is the count of what follows
it, and a reader whose limit the array keeps reads it with nothing left. -/
theorem payload_is_array {m : Message} {headers : List (String × String)} {payload : Bytes}
    (order : headers.Perm m.headerEntries) (written : m.payloadAs headers = .ok payload)
    (short : payload.length ≤ LengthPrefix.maxLength) :
    (headers.map Prod.fst).Nodup ∧
    (m.normalize.members headers).length = m.arity ∧
    Encodes (m.normalize.toValue headers) payload ∧
    ∀ limit, (m.normalize.toValue headers).depth ≤ limit →
      readValue limit payload = .ok (m.normalize.toValue headers) [] := by
  have most : LengthPrefix.maxLength < 2 ^ 32 := by decide
  have gives := payloadAs_gives written (Nat.lt_of_le_of_lt short most)
  rw [writeAs_eq_writeValue] at gives
  have form := gives.value
  rw [normalize_toValue] at form
  refine ⟨?_, ?_, form, ?_⟩
  · exact (order.map Prod.fst).nodup_iff.mpr (distinct_headerEntries m)
  · rw [← map_normalize_members, List.length_map, length_members]
  · intro limit shallow
    have read := (reads_value limit).complete ⟨form, shallow⟩ []
    rwa [List.append_nil] at read

/-- Headers in another order than that of their names, no id, and an empty list of stream ids. -/
theorem payload_is_array_invocation :
    readValue 2 [0x96, 1, 0x82, 0xa1, 98, 0xa1, 120, 0xa1, 97, 0xa1, 121, 0xc0, 0xa1, 116, 0x91, 5,
        0x90] =
      .ok (.array [.int 1, .map [(.string "b", .string "x"), (.string "a", .string "y")], .nil,
        .string "t", .array [.int 5], .array []]) [] := by
  let m : Message := .invocation
    { headers := .ofList [("a", "y"), ("b", "x")], target := "t", arguments := [.uint 5],
      streamIds := some [] }
  have order : [("b", "x"), ("a", "y")].Perm m.headerEntries := by decide
  have written : m.payloadAs [("b", "x"), ("a", "y")] = .ok [0x96, 1, 0x82, 0xa1, 98, 0xa1, 120,
      0xa1, 97, 0xa1, 121, 0xc0, 0xa1, 116, 0x91, 5, 0x90] := by
    cbv
  obtain ⟨-, -, -, read⟩ := payload_is_array order written (by decide)
  exact read 2 (by decide)

end HubPack
