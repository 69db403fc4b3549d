import HubPack.Message.Writer
import HubPack.Proofs.Writing.Value

/-!
A writer as a state. Writes that stop at the first failure come to one write of all of them, so that
the members of a container and the fields of a message may be written one by one.
-/
namespace HubPack

namespace Writer

variable (w : Writer)

theorem write_append (a b : Written) : w.write (a ++ b) = match w.write a with
    | (.ok (), w) => w.write b
    | failed => failed := by
  obtain ⟨x, e⟩ := a
  obtain ⟨y, f⟩ := b
  cases e with
  | none =>
    have joined : (⟨x, none⟩ ++ ⟨y, f⟩ : Written) = ⟨x ++ y, f⟩ := rfl
    rw [joined]
    change (_, Writer.mk _) = (_, Writer.mk _)
    rw [← List.append_assoc]
    cases f <;> rfl
  | some e => rfl

theorem write_empty : w.write .empty = (.ok (), w) := by
  change (_, Writer.mk (w.bytes ++ [])) = _
  rw [List.append_nil]
  rfl

theorem writeAll_eq_write (parts : List Written) : w.writeAll parts = w.write (.join parts) := by
  induction parts generalizing w with
  | nil => exact w.write_empty.symm
  | cons part parts ih =>
    have step : Written.join (part :: parts) = part ++ .join parts := rfl
    rw [writeAll, step, write_append]
    obtain ⟨answer, next⟩ := w.write part
    cases answer with
    | ok => exact ih next
    | error => rfl

theorem write_array (items : List Value) : w.write (writeValue (.array items)) =
    w.writeAll (writeArrayHeader items.length :: items.map writeValue) := by
  rw [writeAll_eq_write, writeValue, writeItems_eq_join]
  rfl

theorem write_map (entries : List (Value × Value)) : w.write (writeValue (.map entries)) =
    w.writeAll (writeMapHeader entries.length ::
      entries.map fun entry => writeValue entry.1 ++ writeValue entry.2) := by
  rw [writeAll_eq_write, writeValue, writeEntries_eq_join]
  rfl

theorem bytes_foldl_write (parts : List Written) :
    (parts.foldl (fun w part => (w.write part).2) w).bytes =
      w.bytes ++ (parts.map Written.bytes).flatten := by
  induction parts generalizing w with
  | nil => exact (List.append_nil _).symm
  | cons part parts ih =>
    rw [List.foldl_cons, ih, List.map_cons, List.flatten_cons, ← List.append_assoc]
    rfl

end Writer

/-- The payload of a message is what its fields leave in a new writer. -/
theorem Message.payloadAs_eq_ok_iff {m : Message} {headers : List (String × String)} {bs : Bytes} :
    m.payloadAs headers = .ok bs ↔ Writer.writeAll {}
        (writeArrayHeader m.arity :: writeInteger m.type.code :: m.fields headers) =
      (.ok (), ⟨bs⟩) := by
  have whole : Written.join
      (writeArrayHeader m.arity :: writeInteger m.type.code :: m.fields headers) =
        m.writeAs headers := rfl
  rw [Writer.writeAll_eq_write, whole, payloadAs]
  obtain ⟨payload, e⟩ := m.writeAs headers
  cases e with
  | none => simp [Writer.write, Written.toExcept, Except.map]
  | some e => simp [Writer.write, Written.toExcept, Except.map]

end HubPack
