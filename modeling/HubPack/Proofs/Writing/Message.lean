import HubPack.Message.Writer
import HubPack.Proofs.Binding
import HubPack.Proofs.Reading.Message
import HubPack.Proofs.Writing.Value

namespace HubPack
open Wire

theorem sequence_written {α : Type} {f : α → Written} {P : α → Bytes → Prop}
    (each : ∀ a e, (f a).Gives e → P a e) {as : List α} {bs : Bytes}
    (h : (Written.join (as.map f)).Gives bs) : Sequence P as bs := by
  obtain ⟨pieces, written, rfl⟩ := h.members
  refine sequence_iff.mpr ⟨pieces, ?_, rfl⟩
  exact (List.forall₂_map_left_iff.mp written).imp each

theorem pair_written {entry : String × String} {bs : Bytes}
    (h : (writeString entry.1 ++ writeString entry.2).Gives bs) : Pair Text Text entry bs := by
  obtain ⟨key, value, first, second, rfl⟩ := Written.Gives.parts h
  exact .mk first.text second.text

theorem headers_written {headers : Headers} {entries : List (String × String)} {bs : Bytes}
    (order : entries.Perm headers.toList) (h : (writeHeaders entries).Gives bs) :
    HeaderMap headers bs := by
  obtain ⟨head, body, first, rest, rfl⟩ := Written.Gives.parts h
  refine .mk (.mk (map_length_written first.1) (sequence_written (fun _ _ => pair_written) rest)) ?_
  exact TextMap.get?_eq_lookup_of_perm ((List.reverse_perm entries).trans order)

theorem textOrNil_written {s : Option String} {bs : Bytes} (h : (writeStringOrNil s).Gives bs) :
    OrNil Text s bs := by
  cases s with
  | none => exact .none (nil_written h.1)
  | some s => exact .some h.text

theorem within_written {limit : Nat} {v : Value} {bs : Bytes} (shallow : v.depth ≤ limit)
    (h : (writeValue v).Gives bs) : Within limit v.normalize bs :=
  ⟨h.value, by rwa [Value.depth_normalize]⟩

theorem arguments_written {limit : Nat} {arguments : List Value} {bs : Bytes}
    (shallow : ∀ v ∈ arguments, v.depth ≤ limit) (h : (writeArguments arguments).Gives bs) :
    ArrayOf (Within limit) (arguments.map Value.normalize) bs := by
  obtain ⟨head, body, first, rest, rfl⟩ := Written.Gives.parts h
  refine .mk ?_ (sequence_and_iff.mpr ⟨?_, ?_⟩)
  · rw [List.length_map]
    exact array_length_written first.1
  · rw [← Value.normalizeItems_eq_map]
    exact rest.items
  · intro v mem
    obtain ⟨u, known, rfl⟩ := List.mem_map.mp mem
    rw [Value.depth_normalize]
    exact shallow u known

theorem streamIds_written {ids : List String} {bs : Bytes} (h : (writeStreamIds ids).Gives bs) :
    ArrayOf Text ids bs := by
  obtain ⟨head, body, first, rest, rfl⟩ := Written.Gives.parts h
  exact .mk (array_length_written first.1)
    (sequence_written (fun _ _ => Written.Gives.text) rest)

theorem slot_written {α : Type} {f : α → Written} {P : Option α → Bytes → Prop} {n others : Nat}
    (each : ∀ a e, (f a).Gives e → P (some a) e) {o : Option α} {pieces : List Bytes}
    (count : n = others + pieces.length)
    (h : List.Forall₂ Written.Gives (o.map f).toList pieces) : Slot P (others + 1) n o pieces := by
  cases o with
  | none =>
    cases h
    rw [List.length_nil] at count
    exact .absent (by omega)
  | some a =>
    cases h with
    | cons first rest =>
      cases rest
      rw [List.length_singleton] at count
      exact .present (by omega) (each a _ first)

theorem outcome_written {limit : Nat} {o : Outcome} {pieces : List Bytes}
    (shallow : ∀ v ∈ o.result?, v.depth ≤ limit)
    (h : List.Forall₂ Written.Gives o.fields pieces) :
    Carried limit (o.mapResult Value.normalize) pieces := by
  cases o with
  | error text =>
    cases h with
    | cons first rest =>
      cases rest
      exact .error first.text
  | void =>
    cases h
    exact .void
  | result v =>
    cases h with
    | cons first rest =>
      cases rest
      exact .result (within_written (shallow v rfl) first)

theorem kind_written {f : Value → Value} {o : Outcome} {bs : Bytes}
    (h : (writeInteger o.kind.code).Gives bs) : Integer (resultKind (o.mapResult f)) bs := by
  have same : resultKind (o.mapResult f) = o.kind.code := by
    cases o <;> rfl
  have bound : (o.kind.code : Int) < 2 ^ 64 := by
    cases o.kind <;> decide
  rw [same]
  exact integer_written (by omega) bound h.1

theorem code_written {m : Message} {bs : Bytes} (h : (writeInteger m.type.code).Gives bs) :
    Integer (typeCode m.normalize) bs := by
  have same : typeCode m.normalize = m.type.code := by
    cases m <;> rfl
  have bound : (m.type.code : Int) < 2 ^ 64 := by
    cases m.type <;> decide
  rw [same]
  exact integer_written (by omega) bound h.1

theorem fields_written {limit : Nat} {m : Message} {headers : List (String × String)}
    {pieces : List Bytes} (order : headers.Perm m.headerEntries)
    (shallow : ∀ v ∈ m.values, v.depth ≤ limit)
    (h : List.Forall₂ Written.Gives (m.fields headers) pieces) :
    Fields limit (1 + pieces.length) m.normalize pieces := by
  cases m with
  | invocation m =>
    obtain ⟨_, _, hh, h₁, rfl⟩ := List.forall₂_cons_left_iff.mp h
    obtain ⟨_, _, hi, h₂, rfl⟩ := List.forall₂_cons_left_iff.mp h₁
    obtain ⟨_, _, ht, h₃, rfl⟩ := List.forall₂_cons_left_iff.mp h₂
    obtain ⟨_, _, ha, h₄, rfl⟩ := List.forall₂_cons_left_iff.mp h₃
    refine Fields.invocation (headers_written order hh) (textOrNil_written hi) ht.text
      (arguments_written shallow ha) (slot_written ?_ ?_ h₄)
    · exact fun _ _ written => .some (streamIds_written written)
    · simp only [List.length_cons]
      omega
  | streamInvocation m =>
    obtain ⟨_, _, hh, h₁, rfl⟩ := List.forall₂_cons_left_iff.mp h
    obtain ⟨_, _, hi, h₂, rfl⟩ := List.forall₂_cons_left_iff.mp h₁
    obtain ⟨_, _, ht, h₃, rfl⟩ := List.forall₂_cons_left_iff.mp h₂
    obtain ⟨_, _, ha, h₄, rfl⟩ := List.forall₂_cons_left_iff.mp h₃
    refine Fields.streamInvocation (headers_written order hh) hi.text ht.text
      (arguments_written shallow ha) (slot_written ?_ ?_ h₄)
    · exact fun _ _ written => .some (streamIds_written written)
    · simp only [List.length_cons]
      omega
  | streamItem m =>
    obtain ⟨_, _, hh, h₁, rfl⟩ := List.forall₂_cons_left_iff.mp h
    obtain ⟨_, _, hi, h₂, rfl⟩ := List.forall₂_cons_left_iff.mp h₁
    obtain ⟨_, _, hv, h₃, rfl⟩ := List.forall₂_cons_left_iff.mp h₂
    cases h₃
    exact .streamItem (headers_written order hh) hi.text
      (within_written (shallow _ (.head _)) hv)
  | completion m =>
    obtain ⟨_, _, hh, h₁, rfl⟩ := List.forall₂_cons_left_iff.mp h
    obtain ⟨_, _, hi, h₂, rfl⟩ := List.forall₂_cons_left_iff.mp h₁
    obtain ⟨_, _, hk, h₃, rfl⟩ := List.forall₂_cons_left_iff.mp h₂
    refine Fields.completion (headers_written order hh) hi.text ?_
      (outcome_written ?_ h₃)
    · exact kind_written hk
    · exact fun v known => shallow v (Option.mem_toList.mpr known)
  | cancelInvocation m =>
    obtain ⟨_, _, hh, h₁, rfl⟩ := List.forall₂_cons_left_iff.mp h
    obtain ⟨_, _, hi, h₂, rfl⟩ := List.forall₂_cons_left_iff.mp h₁
    cases h₂
    exact .cancelInvocation (headers_written order hh) hi.text
  | ping =>
    cases h
    exact .ping
  | close m =>
    obtain ⟨_, _, he, h₁, rfl⟩ := List.forall₂_cons_left_iff.mp h
    refine Fields.close (textOrNil_written he) (slot_written ?_ ?_ h₁)
    · exact fun _ _ written => .mk (flag_written written.1)
    · simp only [List.length_cons]
      omega

theorem arity_eq (headers : List (String × String)) (m : Message) :
    m.arity = 1 + (m.fields headers).length := by
  have optional {α : Type} (o : Option α) (f : α → Written) :
      (o.map f).toList.length = o.isSome.toNat := by
    cases o <;> rfl
  cases m with
  | completion m =>
    obtain ⟨_, _, outcome⟩ := m
    cases outcome <;> rfl
  | _ => simp [Message.arity, Message.fields, optional] <;> omega

theorem message_written {limit : Nat} {m : Message} {headers : List (String × String)} {bs : Bytes}
    (order : headers.Perm m.headerEntries) (shallow : ∀ v ∈ m.values, v.depth ≤ limit)
    (h : (m.writeAs headers).Gives bs) : Represents limit m.normalize bs := by
  obtain ⟨head, _, first, rest, rfl⟩ := Written.Gives.parts h
  obtain ⟨_, members, rfl⟩ := rest.members
  obtain ⟨code, fields, hk, each, rfl⟩ := List.forall₂_cons_left_iff.mp members
  have announced := array_length_written first.1
  rw [arity_eq headers, each.length_eq] at announced
  have form : Represents limit m.normalize
      (head ++ (code ++ (fields.flatten ++ ([] : List Bytes).flatten))) :=
    .mk announced rfl (code_written hk) (fields_written order shallow each) ⟨nofun, fun _ => rfl⟩
  simpa using form

theorem payloadAs_gives {m : Message} {headers : List (String × String)} {payload : Bytes}
    (h : m.payloadAs headers = .ok payload) (short : payload.length < 2 ^ 32) :
    (m.writeAs headers).Gives payload :=
  ⟨Written.toExcept_eq_ok_iff.mp h, short⟩

end HubPack
