import Mathlib
import HubPack.Value

/-!
How deep a value nests, and the normal form of its integers. A reader bounds the first and always
gives the second. Neither depends on the other: normal forms nest as deep as what they come from.
-/
namespace HubPack.Value

mutual

def depth : Value → Nat
  | .array items => depthItems items + 1
  | .map entries => depthEntries entries + 1
  | _ => 0

def depthItems : List Value → Nat
  | [] => 0
  | v :: vs => max (depth v) (depthItems vs)

def depthEntries : List (Value × Value) → Nat
  | [] => 0
  | (k, v) :: rest => max (max (depth k) (depth v)) (depthEntries rest)

end

theorem depthItems_le_iff {items : List Value} {n : Nat} :
    depthItems items ≤ n ↔ ∀ v ∈ items, v.depth ≤ n := by
  induction items with
  | nil => simp [depthItems]
  | cons v vs ih => simp only [depthItems, Nat.max_le, ih, List.forall_mem_cons]

theorem depthEntries_le_iff {entries : List (Value × Value)} {n : Nat} :
    depthEntries entries ≤ n ↔ ∀ entry ∈ entries, entry.1.depth ≤ n ∧ entry.2.depth ≤ n := by
  induction entries with
  | nil => simp [depthEntries]
  | cons entry rest ih =>
    obtain ⟨k, v⟩ := entry
    simp only [depthEntries, Nat.max_le, ih, List.forall_mem_cons]

theorem depth_array_le_iff {items : List Value} {n : Nat} :
    (Value.array items).depth ≤ n + 1 ↔ ∀ v ∈ items, v.depth ≤ n := by
  rw [depth, Nat.add_le_add_iff_right, depthItems_le_iff]

theorem depth_map_le_iff {entries : List (Value × Value)} {n : Nat} :
    (Value.map entries).depth ≤ n + 1 ↔
      ∀ entry ∈ entries, entry.1.depth ≤ n ∧ entry.2.depth ≤ n := by
  rw [depth, Nat.add_le_add_iff_right, depthEntries_le_iff]

/-- Induction over a value: over its items, or its keys and values, before the value itself. -/
@[elab_as_elim]
theorem nestedInduct {P : Value → Prop} (scalar : ∀ v, v.depth = 0 → P v)
    (array : ∀ items, (∀ v ∈ items, P v) → P (.array items))
    (map : ∀ entries, (∀ entry ∈ entries, P entry.1 ∧ P entry.2) → P (.map entries))
    (v : Value) : P v := by
  have bounded : ∀ n (v : Value), v.depth ≤ n → P v := by
    intro n
    induction n with
    | zero => exact fun v flat => scalar v (Nat.le_zero.mp flat)
    | succ n ih =>
      intro v deep
      cases v with
      | array items => exact array items fun v mem => ih v (depth_array_le_iff.mp deep v mem)
      | map entries =>
        refine map entries fun entry mem => ?_
        obtain ⟨key, value⟩ := depth_map_le_iff.mp deep entry mem
        exact ⟨ih _ key, ih _ value⟩
      | _ => exact scalar _ rfl
  exact bounded _ v (Nat.le_refl _)

mutual

/-- The value with each unsigned integer that a signed one of 64 bits can hold turned into that,
at every level. -/
def normalize : Value → Value
  | .uint u => if u.toNat < 2 ^ 63 then .int (.ofNat u.toNat) else .uint u
  | .array items => .array (normalizeItems items)
  | .map entries => .map (normalizeEntries entries)
  | v => v

def normalizeItems : List Value → List Value
  | [] => []
  | v :: vs => normalize v :: normalizeItems vs

def normalizeEntries : List (Value × Value) → List (Value × Value)
  | [] => []
  | (k, v) :: rest => (normalize k, normalize v) :: normalizeEntries rest

end

theorem normalizeItems_eq_map (items : List Value) :
    normalizeItems items = items.map normalize := by
  induction items with
  | nil => rfl
  | cons v vs ih => rw [normalizeItems, ih, List.map_cons]

@[simp] theorem length_normalizeItems (items : List Value) :
    (normalizeItems items).length = items.length := by
  rw [normalizeItems_eq_map, List.length_map]

theorem normalizeEntries_eq_map (entries : List (Value × Value)) :
    normalizeEntries entries = entries.map fun entry => (normalize entry.1, normalize entry.2) := by
  induction entries with
  | nil => rfl
  | cons entry rest ih => rw [normalizeEntries, ih, List.map_cons]

@[simp] theorem length_normalizeEntries (entries : List (Value × Value)) :
    (normalizeEntries entries).length = entries.length := by
  rw [normalizeEntries_eq_map, List.length_map]

mutual

theorem depth_normalize (v : Value) : v.normalize.depth = v.depth := by
  cases v with
  | uint u =>
    rw [normalize]
    split <;> rfl
  | array items => rw [normalize, depth, depth, depthItems_normalizeItems items]
  | map entries => rw [normalize, depth, depth, depthEntries_normalizeEntries entries]
  | _ => rfl

theorem depthItems_normalizeItems (items : List Value) :
    depthItems (normalizeItems items) = depthItems items := by
  cases items with
  | nil => rfl
  | cons v vs =>
    rw [normalizeItems, depthItems, depthItems, depth_normalize v, depthItems_normalizeItems vs]

theorem depthEntries_normalizeEntries (entries : List (Value × Value)) :
    depthEntries (normalizeEntries entries) = depthEntries entries := by
  cases entries with
  | nil => rfl
  | cons entry rest =>
    obtain ⟨k, v⟩ := entry
    rw [normalizeEntries, depthEntries, depthEntries, depth_normalize k, depth_normalize v,
      depthEntries_normalizeEntries rest]

end

end HubPack.Value
