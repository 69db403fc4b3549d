import HubPack.Proofs.RoundTrip
import HubPack.Proofs.Stream.Frames
import HubPack.Proofs.TextMap
import HubPack.Proofs.Value.Coercion
import HubPack.Proofs.Wire.Parts
import HubPack.Proofs.Writing.Success

namespace HubPack
open Wire Value

namespace Message

variable {m : Message}

theorem isCounted_of_fields {limit n : Nat} {fields : List Bytes} (h : Fields limit n m fields) :
    m.IsCounted := by
  have each : ∀ v ∈ m.values, v.IsCounted := by
    intro v mem
    obtain ⟨e, form, -⟩ := within_of_fields h v mem
    exact form.isCounted
  have zero : 0 < 2 ^ 32 := by decide
  have one : 1 < 2 ^ 32 := by decide
  have entries {headers : Headers} {e : Bytes} (h : HeaderMap headers e) :
      headers.toList.length < 2 ^ 32 := by
    obtain ⟨⟨length, -⟩, same⟩ := h
    rw [TextMap.eq_ofList_iff.mpr same]
    exact Nat.lt_of_le_of_lt (TextMap.length_ofList_le _) length.map_lt
  have members {α : Type} {P : α → Bytes → Prop} {as : List α} {e : Bytes} (h : ArrayOf P as e) :
      as.length < 2 ^ 32 := by
    obtain ⟨length, -⟩ := h
    exact length.array_lt
  have ids {o : Option (List String)} {parts : List Bytes}
      (h : Slot (OrNil (ArrayOf Text)) 6 n o parts) : ∀ ids ∈ o, ids.length < 2 ^ 32 := by
    rintro ids ⟨⟩
    cases h with
    | present _ form =>
      cases form with
      | some form => exact members form
  cases h with
  | invocation hh _ _ ha hs => exact ⟨entries hh, ids hs, members ha, each⟩
  | streamInvocation hh _ _ ha hs => exact ⟨entries hh, ids hs, members ha, each⟩
  | streamItem hh _ _ => exact ⟨entries hh, nofun, one, each⟩
  | @completion m _ _ _ _ hh =>
    refine ⟨entries hh, nofun, ?_, each⟩
    obtain ⟨headers, id, outcome⟩ := m
    cases outcome with
    | result v => exact one
    | _ => exact zero
  | cancelInvocation hh _ => exact ⟨entries hh, nofun, zero, each⟩
  | ping => exact ⟨zero, nofun, zero, each⟩
  | close => exact ⟨zero, nofun, zero, each⟩

theorem exists_value_of_bound {binder : Binder} {v : Value} (mem : v ∈ (m.bound binder).values) :
    ∃ hint, ∃ w ∈ m.values, v = coerceTo hint w := by
  rw [values_bound] at mem
  obtain ⟨i, inside, rfl⟩ := List.mem_mapIdx.mp mem
  exact ⟨_, _, List.getElem_mem inside, rfl⟩

theorem IsCounted.bound (h : m.IsCounted) (binder : Binder) : (m.bound binder).IsCounted where
  headers := by
    have same : (m.bound binder).headerEntries = m.headerEntries := by cases m <;> rfl
    exact same ▸ h.headers
  streamIds := by
    have same : (m.bound binder).streamIds? = m.streamIds? := by cases m <;> rfl
    exact same ▸ h.streamIds
  count := by
    rw [values_bound, List.length_mapIdx]
    exact h.count
  values := by
    intro v mem
    obtain ⟨hint, w, known, rfl⟩ := exists_value_of_bound mem
    exact isCounted_coerceTo hint (h.values w known)

theorem bound_bound (binder : Binder) (m : Message) :
    (m.bound binder).bound binder = m.bound binder := by
  cases m with
  | invocation m => simp only [bound, coerceArguments_coerceArguments]
  | streamInvocation m => simp only [bound, coerceArguments_coerceArguments]
  | streamItem m => simp only [bound, coerceTo_coerceTo]
  | completion m =>
    obtain ⟨headers, id, outcome⟩ := m
    cases outcome with
    | result v => simp only [bound, Outcome.mapResult, coerceTo_coerceTo]
    | _ => rfl
  | _ => rfl

theorem normalize_eq_self (h : ∀ v ∈ m.values, v.IsNormal) : m.normalize = m := by
  have each {vs : List Value} (h : ∀ v ∈ vs, v.IsNormal) : vs.map Value.normalize = vs := by
    rw [← normalizeItems_eq_map, normalizeItems_eq_self h]
  cases m with
  | invocation m =>
    have same : m.arguments.map Value.normalize = m.arguments := each h
    rw [normalize, same]
  | streamInvocation m =>
    have same : m.arguments.map Value.normalize = m.arguments := each h
    rw [normalize, same]
  | streamItem m => rw [normalize, Value.normalize_eq_self (h _ (.head _))]
  | completion m =>
    obtain ⟨headers, id, outcome⟩ := m
    cases outcome with
    | result v =>
      have normal : v.normalize = v := Value.normalize_eq_self (h v (.head _))
      rw [normalize, Outcome.mapResult, normal]
    | _ => rfl
  | _ => rfl

end Message

namespace Protocol

variable {p : Protocol} {m : Message}

theorem too_large_of_appendAs {headers : List (String × String)} {dst : Bytes} {e : WireError}
    (order : headers.Perm m.headerEntries) (counted : m.IsCounted)
    (failed : p.appendAs headers m dst = .error e) : ∃ payload, m.payloadAs headers = .ok payload ∧
      p.framing.maxPayload < payload.length ∧
      e = .frameTooLarge payload.length p.framing.maxPayload := by
  have written : m.payloadAs headers = .ok (m.writeAs headers).bytes := by
    rw [Message.payloadAs, Written.toExcept, (Message.writeAs_error_eq_none_iff order).mpr counted]
  rw [appendAs, written] at failed
  change p.framing.append _ dst = _ at failed
  rw [Framing.append_eq] at failed
  split at failed
  · rename_i large
    cases failed
    exact ⟨_, written, large, rfl⟩
  · cases failed

/-- A message that was read has normal values that nest within the limit. It can be written again
unless its frame is too large, and what is written is read as the same message, with the same binder
and with none. -/
theorem relay_lossless (p : Protocol) (binder : Binder) {src : Bytes} {m : Message} {used : Nat}
    (read : p.first binder src = .ok (some m, used)) :
    (∀ v ∈ m.values, v.IsNormal ∧ v.depth ≤ p.maxNestingDepth) ∧
    ∀ (headers : List (String × String)) (dst : Bytes), headers.Perm m.headerEntries →
      match p.appendAs headers m dst with
      | .error e => ∃ payload, m.payloadAs headers = .ok payload ∧
        p.framing.maxPayload < payload.length ∧
        e = .frameTooLarge payload.length p.framing.maxPayload
      | .ok dst' => ∃ frame, dst' = dst ++ frame ∧ ∀ x,
        p.first .untyped (frame ++ x) = .ok (some m, frame.length) ∧
        p.first binder (frame ++ x) = .ok (some m, frame.length) := by
  obtain ⟨answer, _, _, ⟨_, _, form, -⟩, bound, -, -⟩ := exists_holds_of_first read
  obtain ⟨raw, rfl, rfl⟩ := Option.map_eq_some_iff.mp bound.symm
  obtain ⟨-, -, -, fields, -⟩ := form
  have known : ∀ v ∈ (raw.bound binder).values, v.IsNormal ∧ v.depth ≤ p.maxNestingDepth := by
    intro v mem
    obtain ⟨hint, w, carried, rfl⟩ := Message.exists_value_of_bound mem
    obtain ⟨e, form, shallow⟩ := within_of_fields fields w carried
    exact ⟨isNormal_coerceTo hint form.isNormal, by rwa [depth_coerceTo]⟩
  have normal : (raw.bound binder).normalize = raw.bound binder :=
    Message.normalize_eq_self fun v mem => (known v mem).1
  refine ⟨known, fun headers dst order => ?_⟩
  cases sent : p.appendAs headers (raw.bound binder) dst with
  | error e =>
    have counted := (Message.isCounted_of_fields fields).bound binder
    exact too_large_of_appendAs order counted sent
  | ok dst' =>
    obtain ⟨frame, alone, rfl⟩ := appendAs_eq_ok_iff.mp sent
    refine ⟨frame, rfl, fun x => ?_⟩
    -- neither the normal form nor a second coercion changes what was read
    have back (b : Binder) := first_of_appendAs b order (fun v mem => (known v mem).2) alone x
    rw [back, back, normal, Message.bound_untyped, Message.bound_bound]
    exact ⟨rfl, rfl⟩

def casting : Binder where
  parameters target :=
    if target = "t" then [.int, .string] else if target = "u" then [.bytes] else []
  result _ := none

def relayed : Message :=
  .invocation
    { headers := .ofList [("k", "b")], target := "t", arguments := [.int 5, .string "a"] }

/-- Forms that are wider than need be, a name twice among the headers, a field too many, and a byte
behind the message. -/
def loose : Bytes :=
  [29, 0xdc, 0, 7, 0xd0, 1, 0x82, 0xa1, 107, 0xa1, 97, 0xa1, 107, 0xa1, 98, 0xc0, 0xa1, 116,
    0x92, 0xca, 0x40, 0xa0, 0, 0, 0xc4, 1, 97, 0xc0, 42, 0]

theorem relay_lossless_cast :
    ((ofConfig ⟨100, 1⟩).first casting loose = .ok (some relayed, 30) ∧
      ∃ frame, (ofConfig ⟨100, 1⟩).append relayed [7] = .ok ([7] ++ frame) ∧
        ∀ x, (ofConfig ⟨100, 1⟩).first .untyped (frame ++ x) = .ok (some relayed, frame.length) ∧
          (ofConfig ⟨100, 1⟩).first casting (frame ++ x) = .ok (some relayed, frame.length)) ∧
    ∃ payload,
      Message.payload (.invocation { target := "u", arguments := [.bytes [97]] }) = .ok payload ∧
      9 < payload.length ∧
      (ofConfig ⟨9, 1⟩).append (.invocation { target := "u", arguments := [.bytes [97]] }) [] =
        .error (.frameTooLarge payload.length 9) := by
  constructor
  · have read : (ofConfig ⟨100, 1⟩).first casting loose = .ok (some relayed, 30) := by cbv
    have sent : (ofConfig ⟨100, 1⟩).appendAs relayed.headerEntries relayed [7] =
        .ok [7, 14, 0x95, 1, 0x81, 0xa1, 107, 0xa1, 98, 0xc0, 0xa1, 116, 0x92, 5, 0xa1, 97] := by
      cbv
    obtain ⟨-, relay⟩ := relay_lossless (ofConfig ⟨100, 1⟩) casting read
    have kept := relay relayed.headerEntries [7] (.refl _)
    rw [sent] at kept
    obtain ⟨frame, split, back⟩ := kept
    exact ⟨read, frame, sent.trans (congrArg _ split), back⟩
  · have read : (ofConfig ⟨9, 1⟩).first casting
          [9, 0x95, 1, 0x80, 0xc0, 0xa1, 117, 0x91, 0xa1, 97] =
        .ok (some (.invocation { target := "u", arguments := [.bytes [97]] }), 10) := by
      cbv
    have sent : (ofConfig ⟨9, 1⟩).appendAs []
        (.invocation { target := "u", arguments := [.bytes [97]] }) [] =
          .error (.frameTooLarge 10 9) := by
      cbv
    obtain ⟨-, relay⟩ := relay_lossless (ofConfig ⟨9, 1⟩) casting read
    have kept := relay [] [] (.refl _)
    rw [sent] at kept
    obtain ⟨payload, written, large, failed⟩ := kept
    exact ⟨payload, written, large, sent.trans (congrArg _ failed)⟩

end Protocol

end HubPack
