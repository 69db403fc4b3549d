import HubPack.Proofs.Value.Nesting

namespace HubPack.Value

inductive HasPart : Value → Value → Prop where
  | self (v : Value) : HasPart v v
  | item {items : List Value} {v x : Value} : v ∈ items → HasPart v x → HasPart (.array items) x
  | key {entries : List (Value × Value)} {entry : Value × Value} {x : Value} :
      entry ∈ entries → HasPart entry.1 x → HasPart (.map entries) x
  | value {entries : List (Value × Value)} {entry : Value × Value} {x : Value} :
      entry ∈ entries → HasPart entry.2 x → HasPart (.map entries) x

def IsNormal (v : Value) : Prop := ∀ u, v.HasPart (.uint u) → 2 ^ 63 ≤ u.toNat

mutual

theorem normalize_eq_self {v : Value} (h : v.IsNormal) : v.normalize = v := by
  cases v with
  | uint u =>
    have large := h u (.self _)
    rw [normalize, if_neg (by omega)]
  | array items => rw [normalize, normalizeItems_eq_self fun v mem u part => h u (.item mem part)]
  | map entries =>
    rw [normalize, normalizeEntries_eq_self fun entry mem =>
      ⟨fun u part => h u (.key mem part), fun u part => h u (.value mem part)⟩]
  | _ => rfl

theorem normalizeItems_eq_self {items : List Value} (h : ∀ v ∈ items, v.IsNormal) :
    normalizeItems items = items := by
  cases items with
  | nil => rfl
  | cons v vs =>
    obtain ⟨first, rest⟩ := List.forall_mem_cons.mp h
    rw [normalizeItems, normalize_eq_self first, normalizeItems_eq_self rest]

theorem normalizeEntries_eq_self {entries : List (Value × Value)}
    (h : ∀ entry ∈ entries, entry.1.IsNormal ∧ entry.2.IsNormal) :
    normalizeEntries entries = entries := by
  cases entries with
  | nil => rfl
  | cons entry rest =>
    obtain ⟨k, v⟩ := entry
    obtain ⟨⟨key, value⟩, tail⟩ := List.forall_mem_cons.mp h
    rw [normalizeEntries, normalize_eq_self key, normalize_eq_self value,
      normalizeEntries_eq_self tail]

end

def count : Value → Nat
  | .array items => items.length
  | .map entries => entries.length
  | .ext _ data => data.length
  | _ => 0

def IsCounted (v : Value) : Prop := ∀ x, v.HasPart x → x.count < 2 ^ 32

def textLength : Value → Nat
  | .string s => (Utf8.encode s).length
  | .bytes bs => bs.length
  | _ => 0

def HasShortTexts (v : Value) : Prop := ∀ x, v.HasPart x → x.textLength < 2 ^ 32

section EveryPart

variable {P : Value → Prop} {items : List Value} {entries : List (Value × Value)}

theorem forall_part_array_iff : (∀ x, (Value.array items).HasPart x → P x) ↔
    P (.array items) ∧ ∀ v ∈ items, ∀ x, v.HasPart x → P x := by
  constructor
  · intro h
    exact ⟨h _ (.self _), fun v mem x part => h x (.item mem part)⟩
  · rintro ⟨whole, each⟩ x part
    cases part with
    | self => exact whole
    | item mem part => exact each _ mem x part

theorem forall_part_map_iff : (∀ x, (Value.map entries).HasPart x → P x) ↔
    P (.map entries) ∧ ∀ entry ∈ entries,
      (∀ x, entry.1.HasPart x → P x) ∧ ∀ x, entry.2.HasPart x → P x := by
  constructor
  · intro h
    exact ⟨h _ (.self _), fun entry mem =>
      ⟨fun x part => h x (.key mem part), fun x part => h x (.value mem part)⟩⟩
  · rintro ⟨whole, each⟩ x part
    cases part with
    | self => exact whole
    | key mem part => exact (each _ mem).1 x part
    | value mem part => exact (each _ mem).2 x part

theorem isCounted_array_iff :
    (Value.array items).IsCounted ↔ items.length < 2 ^ 32 ∧ ∀ v ∈ items, v.IsCounted :=
  forall_part_array_iff

theorem isCounted_map_iff : (Value.map entries).IsCounted ↔ entries.length < 2 ^ 32 ∧
    ∀ entry ∈ entries, entry.1.IsCounted ∧ entry.2.IsCounted :=
  forall_part_map_iff

theorem hasShortTexts_array_iff :
    (Value.array items).HasShortTexts ↔ ∀ v ∈ items, v.HasShortTexts :=
  forall_part_array_iff.trans (and_iff_right (by decide : 0 < 2 ^ 32))

theorem hasShortTexts_map_iff : (Value.map entries).HasShortTexts ↔
    ∀ entry ∈ entries, entry.1.HasShortTexts ∧ entry.2.HasShortTexts :=
  forall_part_map_iff.trans (and_iff_right (by decide : 0 < 2 ^ 32))

end EveryPart

theorem isCounted_ext_iff {tag : Int8} {data : Bytes} :
    (Value.ext tag data).IsCounted ↔ data.length < 2 ^ 32 := by
  constructor
  · exact fun h => h _ (.self _)
  · rintro count x ⟨⟩
    exact count

theorem textLength_normalize (v : Value) : v.normalize.textLength = v.textLength := by
  cases v with
  | uint u =>
    rw [normalize]
    split <;> rfl
  | _ => rfl

theorem HasPart.normalize {v x : Value} (part : v.HasPart x) :
    v.normalize.HasPart x.normalize := by
  induction part with
  | self v => exact .self _
  | item mem _ ih =>
    rw [Value.normalize, normalizeItems_eq_map]
    exact .item (List.mem_map_of_mem mem) ih
  | key mem _ ih =>
    rw [Value.normalize, normalizeEntries_eq_map]
    exact .key (List.mem_map_of_mem mem) ih
  | value mem _ ih =>
    rw [Value.normalize, normalizeEntries_eq_map]
    exact .value (List.mem_map_of_mem mem) ih

theorem hasShortTexts_of_normalize {v : Value} (h : v.normalize.HasShortTexts) :
    v.HasShortTexts := by
  intro x part
  rw [← textLength_normalize]
  exact h _ part.normalize

/-- Numbers and texts, which a coercion may turn into each other. -/
def IsPlain : Value → Prop
  | .int _ | .uint _ | .float _ | .string _ | .bytes _ => True
  | _ => False

namespace IsPlain

variable {v x : Value}

theorem depth_eq (h : v.IsPlain) : v.depth = 0 := by
  cases v <;> first | rfl | cases h

theorem count_eq (h : v.IsPlain) : v.count = 0 := by
  cases v <;> first | rfl | cases h

theorem eq_of_part (h : v.IsPlain) (part : v.HasPart x) : x = v := by
  cases part with
  | self => rfl
  | item => cases h
  | key => cases h
  | value => cases h

end IsPlain

end HubPack.Value
