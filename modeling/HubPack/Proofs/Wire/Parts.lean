import HubPack.Proofs.Value.Parts
import HubPack.Proofs.Wire.Value

namespace HubPack.Wire
open Value

theorem Length.lt_of_forms {forms : LengthForms} {n : Nat} {e : Bytes} (h : Length forms n e)
    (small : ∀ entry ∈ forms.short, entry.1 < 2 ^ 32) (narrow : ∀ entry ∈ forms.wide, entry.2 ≤ 4) :
    n < 2 ^ 32 := by
  cases h with
  | short mem => exact small _ mem
  | @wide _ width mem bound =>
    calc
      n < 256 ^ width := bound
      _ ≤ 256 ^ 4 := Nat.pow_le_pow_right (by decide) (narrow _ mem)
      _ = 2 ^ 32 := by decide

theorem Length.array_lt {n : Nat} {e : Bytes} (h : Length .array n e) : n < 2 ^ 32 :=
  h.lt_of_forms (by decide) (by decide)

theorem Length.map_lt {n : Nat} {e : Bytes} (h : Length .map n e) : n < 2 ^ 32 :=
  h.lt_of_forms (by decide) (by decide)

theorem Length.ext_lt {n : Nat} {e : Bytes} (h : Length .ext n e) : n < 2 ^ 32 :=
  h.lt_of_forms (by decide) (by decide)

theorem Length.string_lt {n : Nat} {e : Bytes} (h : Length .string n e) : n < 2 ^ 32 :=
  h.lt_of_forms (by decide) (by decide)

theorem Length.bytes_lt {n : Nat} {e : Bytes} (h : Length .bytes n e) : n < 2 ^ 32 :=
  h.lt_of_forms (by decide) (by decide)

theorem exists_encodes_of_part {v x : Value} {e : Bytes} (h : Encodes v e) (part : v.HasPart x) :
    ∃ e, Encodes x e := by
  induction part generalizing e with
  | self v => exact ⟨e, h⟩
  | item mem _ ih =>
    cases h with
    | array _ body =>
      obtain ⟨e, form⟩ := body.forall_mem _ mem
      exact ih form
  | key mem _ ih =>
    cases h with
    | map _ body =>
      obtain ⟨_, form⟩ := body.forall_mem _ mem
      cases form with
      | mk key _ => exact ih key
  | value mem _ ih =>
    cases h with
    | map _ body =>
      obtain ⟨_, form⟩ := body.forall_mem _ mem
      cases form with
      | mk _ value => exact ih value

theorem Encodes.isNormal {v : Value} {e : Bytes} (h : Encodes v e) : v.IsNormal := by
  intro u part
  obtain ⟨e, form⟩ := exists_encodes_of_part h part
  cases form with
  | uint large _ => exact large

theorem Encodes.isCounted {v : Value} {e : Bytes} (h : Encodes v e) : v.IsCounted := by
  intro x part
  obtain ⟨e, form⟩ := exists_encodes_of_part h part
  cases form with
  | array length => exact length.array_lt
  | map length => exact length.map_lt
  | ext length => exact length.ext_lt
  | _ => exact (by decide : 0 < 2 ^ 32)

theorem Text.length_lt {s : String} {e : Bytes} (h : Text s e) :
    (Utf8.encode s).length < 2 ^ 32 := by
  obtain ⟨length⟩ := h
  exact length.string_lt

theorem Raw.length_lt {bs e : Bytes} (h : Raw bs e) : bs.length < 2 ^ 32 := by
  obtain ⟨length⟩ := h
  exact length.bytes_lt

theorem Encodes.hasShortTexts {v : Value} {e : Bytes} (h : Encodes v e) : v.HasShortTexts := by
  intro x part
  obtain ⟨e, form⟩ := exists_encodes_of_part h part
  cases form with
  | string text => exact text.length_lt
  | bytes raw => exact raw.length_lt
  | _ => exact (by decide : 0 < 2 ^ 32)

end HubPack.Wire
