import HubPack.Proofs.Value.Coercion

namespace HubPack

namespace Value

mutual

/-- One for the value and all its parts each, and one for every byte of data. -/
def weight : Value → Nat
  | .string s => 1 + (Utf8.encode s).length
  | .bytes bs => 1 + bs.length
  | .ext _ data => 1 + data.length
  | .array items => 1 + weightItems items
  | .map entries => 1 + weightEntries entries
  | _ => 1

def weightItems : List Value → Nat
  | [] => 0
  | v :: vs => weight v + weightItems vs

def weightEntries : List (Value × Value) → Nat
  | [] => 0
  | (k, v) :: rest => weight k + weight v + weightEntries rest

end

def entryWeight (entry : Value × Value) : Nat := entry.1.weight + entry.2.weight

theorem weightItems_eq_sum (items : List Value) : weightItems items = (items.map weight).sum := by
  induction items with
  | nil => rfl
  | cons v vs ih => simp [weightItems, ih]

theorem weightEntries_eq_sum (entries : List (Value × Value)) :
    weightEntries entries = (entries.map entryWeight).sum := by
  induction entries with
  | nil => rfl
  | cons entry rest ih => simp [weightEntries, entryWeight, ih]

@[simp] theorem weight_array (items : List Value) :
    (Value.array items).weight = 1 + (items.map weight).sum := by
  rw [weight, weightItems_eq_sum]

@[simp] theorem weight_map (entries : List (Value × Value)) :
    (Value.map entries).weight = 1 + (entries.map entryWeight).sum := by
  rw [weight, weightEntries_eq_sum]

theorem weight_pos (v : Value) : 0 < v.weight := by
  cases v <;> simp [weight]

theorem entryWeight_pos (entry : Value × Value) : 0 < entryWeight entry :=
  Nat.add_pos_left (weight_pos _) _

theorem length_le_sum {α : Type} {w : α → Nat} (h : ∀ a, 0 < w a) (as : List α) :
    as.length ≤ (as.map w).sum := by
  have each : ∀ n ∈ as.map w, 1 ≤ n := by
    rw [List.forall_mem_map]
    intro a _
    exact h a
  simpa using List.length_le_sum_of_one_le _ each

theorem count_lt_weight (v : Value) : v.count < v.weight := by
  cases v with
  | array items =>
    have bound := length_le_sum weight_pos items
    simp only [count, weight_array]
    omega
  | map entries =>
    have bound := length_le_sum entryWeight_pos entries
    simp only [count, weight_map]
    omega
  | ext tag data =>
    simp only [count, weight]
    omega
  | _ => exact weight_pos _

theorem weight_le_of_part {v x : Value} (part : v.HasPart x) : x.weight ≤ v.weight := by
  induction part with
  | self => exact Nat.le_refl _
  | item mem _ ih =>
    have bound := List.le_sum_of_mem (List.mem_map_of_mem (f := weight) mem)
    rw [weight_array]
    omega
  | key mem _ ih =>
    have bound := List.le_sum_of_mem (List.mem_map_of_mem (f := entryWeight) mem)
    rw [entryWeight] at bound
    rw [weight_map]
    omega
  | value mem _ ih =>
    have bound := List.le_sum_of_mem (List.mem_map_of_mem (f := entryWeight) mem)
    rw [entryWeight] at bound
    rw [weight_map]
    omega

theorem count_lt_of_part {v x : Value} (part : v.HasPart x) : x.count < v.weight :=
  Nat.lt_of_lt_of_le (count_lt_weight x) (weight_le_of_part part)

theorem IsPlain.weight_eq {v : Value} (h : v.IsPlain) : v.weight = 1 + v.textLength := by
  cases v <;> first | rfl | cases h

end Value

open Value

@[simp] theorem Hint.weight_coerce (h : Hint) (v : Value) : (h.coerce v).weight = v.weight := by
  induction h, v using Hint.coerce_induct with
  | same => rfl
  | converted c => rw [c.before.weight_eq, c.after.weight_eq, c.length]
  | list ih => simp [Function.comp_def, ih]
  | @map key value _ ihk ihv =>
    have each (entry : Value × Value) :
        entryWeight (key.coerce entry.1, value.coerce entry.2) = entryWeight entry := by
      simp [entryWeight, ihk, ihv]
    simp [Function.comp_def, each]

@[simp] theorem weight_coerceTo (hint : Option Hint) (v : Value) :
    (coerceTo hint v).weight = v.weight := by
  cases hint with
  | none => rfl
  | some h => exact h.weight_coerce v

end HubPack
