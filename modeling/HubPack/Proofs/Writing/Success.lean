import HubPack.Proofs.Binding
import HubPack.Proofs.Value.Parts
import HubPack.Proofs.Writing.Message

namespace HubPack

namespace Written

@[simp] theorem append_error_eq_none_iff {a b : Written} :
    (a ++ b).error = none ↔ a.error = none ∧ b.error = none := by
  rw [append_eq]
  cases failed : a.error with
  | none => exact (and_iff_right rfl).symm
  | some e => simp [failed]

@[simp] theorem join_error_eq_none_iff {parts : List Written} :
    (join parts).error = none ↔ ∀ w ∈ parts, w.error = none := by
  induction parts with
  | nil => exact iff_of_true rfl (by simp)
  | cons w parts ih =>
    have step : join (w :: parts) = w ++ join parts := rfl
    rw [step, append_error_eq_none_iff, ih, List.forall_mem_cons]

def OnlyRefuses (w : Written) : Prop := ∀ e ∈ w.error, ∃ cause, e = .serialization cause

theorem OnlyRefuses.of_success {w : Written} (h : w.error = none) : w.OnlyRefuses := by
  intro e failed
  rw [h] at failed
  cases failed

theorem OnlyRefuses.append {a b : Written} (ha : a.OnlyRefuses) (hb : b.OnlyRefuses) :
    (a ++ b).OnlyRefuses := by
  intro e failed
  rw [append_eq] at failed
  split at failed
  · exact hb e failed
  · exact ha e failed

theorem OnlyRefuses.join {parts : List Written} (h : ∀ w ∈ parts, w.OnlyRefuses) :
    (join parts).OnlyRefuses := by
  induction parts with
  | nil => exact of_success rfl
  | cons w parts ih =>
    obtain ⟨first, rest⟩ := List.forall_mem_cons.mp h
    exact first.append (ih rest)

end Written

open Written

theorem onlyRefuses_counted (what : Counted) (marker : Nat → Marker) (n : Nat) :
    (writeCounted what marker n).OnlyRefuses := by
  rw [writeCounted]
  split
  · exact .of_success rfl
  · rintro e ⟨rfl⟩
    exact ⟨_, rfl⟩

theorem onlyRefuses_list {α : Type} (what : Counted) (marker : Nat → Marker) {n : Nat}
    {write : α → Written} {as : List α} (h : ∀ a ∈ as, (write a).OnlyRefuses) :
    (writeCounted what marker n ++ .join (as.map write)).OnlyRefuses :=
  (onlyRefuses_counted what marker n).append (.join (List.forall_mem_map.mpr h))

theorem onlyRefuses_value (v : Value) : (writeValue v).OnlyRefuses := by
  induction v using Value.nestedInduct with
  | scalar v flat =>
    cases v with
    | array | map => cases flat
    | ext => exact (onlyRefuses_counted _ _ _).append (.of_success rfl)
    | _ => exact .of_success rfl
  | array items ih =>
    rw [writeValue, writeItems_eq_join]
    exact onlyRefuses_list _ _ ih
  | map entries ih =>
    rw [writeValue, writeEntries_eq_join]
    refine onlyRefuses_list _ _ ?_
    intro entry mem
    obtain ⟨key, value⟩ := ih entry mem
    exact key.append value

theorem writeCounted_error_eq_none_iff {what : Counted} {marker : Nat → Marker} {n : Nat} :
    (writeCounted what marker n).error = none ↔ n < 2 ^ 32 := by
  rw [writeCounted]
  split
  · rename_i small
    exact iff_of_true rfl small
  · rename_i large
    exact iff_of_false (by simp [failed]) large

@[simp] theorem writeArrayHeader_error_eq_none_iff {n : Nat} :
    (writeArrayHeader n).error = none ↔ n < 2 ^ 32 := writeCounted_error_eq_none_iff

@[simp] theorem writeMapHeader_error_eq_none_iff {n : Nat} :
    (writeMapHeader n).error = none ↔ n < 2 ^ 32 := writeCounted_error_eq_none_iff

@[simp] theorem writeString_error (s : String) : (writeString s).error = none := rfl

@[simp] theorem writeInteger_error (i : Int) : (writeInteger i).error = none := rfl

@[simp] theorem writeBool_error (b : Bool) : (writeBool b).error = none := rfl

@[simp] theorem writeStringOrNil_error (s : Option String) : (writeStringOrNil s).error = none := by
  cases s <;> rfl

mutual

@[simp] theorem writeValue_error_eq_none_iff (v : Value) :
    (writeValue v).error = none ↔ v.IsCounted := by
  have single (plain : ∀ x, v.HasPart x → x.count = 0) (written : (writeValue v).error = none) :
      (writeValue v).error = none ↔ v.IsCounted :=
    iff_of_true written fun x part => by rw [plain x part]; decide
  cases v with
  | array items =>
    rw [writeValue, append_error_eq_none_iff, writeArrayHeader_error_eq_none_iff,
      writeItems_error_eq_none_iff items, Value.isCounted_array_iff]
  | map entries =>
    rw [writeValue, append_error_eq_none_iff, writeMapHeader_error_eq_none_iff,
      writeEntries_error_eq_none_iff entries, Value.isCounted_map_iff]
  | ext tag data =>
    rw [writeValue, writeExt, append_error_eq_none_iff, Value.isCounted_ext_iff]
    exact (and_iff_left rfl).trans writeCounted_error_eq_none_iff
  | _ => exact single (by rintro x ⟨⟩; rfl) rfl

@[simp] theorem writeItems_error_eq_none_iff (items : List Value) :
    (writeItems items).error = none ↔ ∀ v ∈ items, v.IsCounted := by
  cases items with
  | nil => exact iff_of_true rfl (by simp)
  | cons v vs =>
    rw [writeItems, append_error_eq_none_iff, writeValue_error_eq_none_iff v,
      writeItems_error_eq_none_iff vs, List.forall_mem_cons]

theorem writeEntries_error_eq_none_iff (entries : List (Value × Value)) :
    (writeEntries entries).error = none ↔
      ∀ entry ∈ entries, entry.1.IsCounted ∧ entry.2.IsCounted := by
  cases entries with
  | nil => exact iff_of_true rfl (by simp)
  | cons entry rest =>
    obtain ⟨k, v⟩ := entry
    rw [writeEntries, append_error_eq_none_iff, append_error_eq_none_iff,
      writeValue_error_eq_none_iff k, writeValue_error_eq_none_iff v,
      writeEntries_error_eq_none_iff rest, List.forall_mem_cons]

end

@[simp] theorem writeHeaders_error_eq_none_iff {entries : List (String × String)} :
    (writeHeaders entries).error = none ↔ entries.length < 2 ^ 32 := by
  simp only [writeHeaders, append_error_eq_none_iff, writeMapHeader_error_eq_none_iff,
    join_error_eq_none_iff, List.forall_mem_map, writeString_error, and_self, implies_true,
    and_true]

@[simp] theorem writeStreamIds_error_eq_none_iff {ids : List String} :
    (writeStreamIds ids).error = none ↔ ids.length < 2 ^ 32 := by
  simp [writeStreamIds]

namespace Message

def streamIds? : Message → Option (List String)
  | .invocation m => m.streamIds
  | .streamInvocation m => m.streamIds
  | _ => none

structure IsCounted (m : Message) : Prop where
  headers : m.headerEntries.length < 2 ^ 32
  streamIds : ∀ ids ∈ m.streamIds?, ids.length < 2 ^ 32
  count : m.values.length < 2 ^ 32
  values : ∀ v ∈ m.values, v.IsCounted

theorem isCounted_iff {m : Message} : m.IsCounted ↔ m.headerEntries.length < 2 ^ 32 ∧
    (∀ ids ∈ m.streamIds?, ids.length < 2 ^ 32) ∧ m.values.length < 2 ^ 32 ∧
      ∀ v ∈ m.values, v.IsCounted :=
  ⟨fun h => ⟨h.headers, h.streamIds, h.count, h.values⟩,
    fun h => ⟨h.1, h.2.1, h.2.2.1, h.2.2.2⟩⟩

theorem arity_le (m : Message) : m.arity ≤ 6 := by
  have flag (b : Bool) : b.toNat ≤ 1 := Bool.toNat_le b
  cases m with
  | invocation m => exact Nat.add_le_add_left (flag _) 5
  | streamInvocation m => exact Nat.add_le_add_left (flag _) 5
  | completion m =>
    obtain ⟨headers, id, outcome⟩ := m
    cases outcome <;> simp [arity]
  | close m => exact Nat.le_trans (Nat.add_le_add_left (flag _) 2) (by decide)
  | _ => simp [arity]

theorem fields_error_eq_none_iff {m : Message} {headers : List (String × String)}
    (order : headers.Perm m.headerEntries) :
    (∀ w ∈ m.fields headers, w.error = none) ↔ m.IsCounted := by
  have count := order.length_eq
  rw [isCounted_iff, ← count]
  cases m with
  | invocation m =>
    simpa [fields, writeArguments, streamIds?, values] using fun _ => and_comm
  | streamInvocation m =>
    simpa [fields, writeArguments, streamIds?, values] using fun _ => and_comm
  | streamItem m => simp [fields, streamIds?, values]
  | completion m =>
    obtain ⟨_, id, outcome⟩ := m
    cases outcome <;> simp [fields, Outcome.fields, streamIds?, values, Outcome.result?]
  | cancelInvocation m => simp [fields, streamIds?, values]
  | ping =>
    have empty : headers.length = 0 := count
    simp [fields, streamIds?, values, empty]
  | close m =>
    have empty : headers.length = 0 := count
    obtain ⟨error, allow⟩ := m
    cases allow <;> simp [fields, streamIds?, values, empty]

theorem writeAs_error_eq_none_iff {m : Message} {headers : List (String × String)}
    (order : headers.Perm m.headerEntries) :
    (m.writeAs headers).error = none ↔ m.IsCounted := by
  have head : m.arity < 2 ^ 32 := Nat.lt_of_le_of_lt m.arity_le (by decide)
  rw [writeAs, append_error_eq_none_iff, writeArrayHeader_error_eq_none_iff, and_iff_right head,
    join_error_eq_none_iff, List.forall_mem_cons, and_iff_right (writeInteger_error _),
    fields_error_eq_none_iff order]

end Message

end HubPack
