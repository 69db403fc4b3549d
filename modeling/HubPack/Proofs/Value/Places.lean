import HubPack.Proofs.Value.Weight

/-!
Coercion place by place. A place in a value is given by the steps that lead to it, and a hint says
what it expects at each place: nothing where a container is not of the hinted kind. What a coercion
makes of the part at a place is told by that part and by the hint there. Only numbers and texts
change, each to the kind that the hint names, and a value that fits does not change at all.
-/
namespace HubPack

namespace Value

inductive Step where
  | item (i : Nat)
  | key (i : Nat)
  | value (i : Nat)
  deriving DecidableEq, Repr

def child? : Value → Step → Option Value
  | .array items, .item i => items[i]?
  | .map entries, .key i => entries[i]?.map Prod.fst
  | .map entries, .value i => entries[i]?.map Prod.snd
  | _, _ => none

def part? : Value → List Step → Option Value
  | v, [] => some v
  | v, step :: place => (v.child? step).bind fun child => child.part? place

def IsContainer : Value → Prop
  | .array _ | .map _ => True
  | _ => False

theorem child?_eq_none {v : Value} (scalar : v.depth = 0) (step : Step) : v.child? step = none := by
  cases v with
  | array | map => cases scalar
  | _ => rfl

end Value

open Value

namespace Hint

def child : Hint → Step → Hint
  | .list element, .item _ => element
  | .map key _, .key _ => key
  | .map _ value, .value _ => value
  | _, _ => .dynamic

def part (h : Hint) (place : List Step) : Hint := place.foldl child h

/-- The hint is for containers of the kind of the value. -/
def Opens : Hint → Value → Prop
  | .list _, .array _ | .map _ _, .map _ => True
  | _, _ => False

/-- The value is a number or a text of the hinted kind. -/
def Names : Hint → Value → Prop
  | .int, .int _ | .float, .float _ | .string, .string _ | .bytes, .bytes _ => True
  | _, _ => False

/-- What a coercion towards a hint may do to a part of a value. Containers keep their kind and
their count, and nothing gets lighter or heavier. -/
structure Keeps (h : Hint) (before after : Value) : Prop where
  array : ∀ items, before = .array items →
    ∃ coerced, after = .array coerced ∧ coerced.length = items.length
  map : ∀ entries, before = .map entries →
    ∃ coerced, after = .map coerced ∧ coerced.length = entries.length
  depth : after.depth = before.depth
  weight : after.weight = before.weight
  nil : before = .nil → after = before
  bool : ∀ b, before = .bool b → after = before
  ext : ∀ tag data, before = .ext tag data → after = before
  dynamic : h = .dynamic → after = before
  foreign : before.IsContainer → ¬h.Opens before → after = before
  scalar : ¬before.IsContainer → after ≠ before → h.Names after

theorem coerce_nil (h : Hint) : h.coerce .nil = .nil := by cases h <;> rfl

theorem coerce_bool (h : Hint) (b : Bool) : h.coerce (.bool b) = .bool b := by cases h <;> rfl

theorem coerce_ext (h : Hint) (tag : Int8) (data : Bytes) :
    h.coerce (.ext tag data) = .ext tag data := by cases h <;> rfl

theorem coerce_dynamic (v : Value) : Hint.dynamic.coerce v = v := rfl

theorem coerce_foreign {h : Hint} {v : Value} (container : v.IsContainer) (foreign : ¬h.Opens v) :
    h.coerce v = v := by
  cases v with
  | array items =>
    cases h with
    | list => exact absurd trivial foreign
    | _ => rfl
  | map entries =>
    cases h with
    | map => exact absurd trivial foreign
    | _ => rfl
  | _ => cases container

theorem names_coerce {h : Hint} {v : Value} (scalar : ¬v.IsContainer) (changed : h.coerce v ≠ v) :
    h.Names (h.coerce v) := by
  cases h with
  | dynamic | bool => exact absurd rfl changed
  | int =>
    cases v with
    | float f =>
      rw [coerce] at changed ⊢
      split at changed
      · trivial
      · exact absurd rfl changed
    | _ => exact absurd rfl changed
  | float =>
    cases v with
    | int | uint => trivial
    | _ => exact absurd rfl changed
  | string =>
    cases v with
    | bytes bs =>
      rw [coerce] at changed ⊢
      split at changed
      · trivial
      · exact absurd rfl changed
    | _ => exact absurd rfl changed
  | bytes =>
    cases v with
    | string => trivial
    | _ => exact absurd rfl changed
  | list =>
    cases v with
    | array => exact absurd trivial scalar
    | _ => exact absurd rfl changed
  | map =>
    cases v with
    | map => exact absurd trivial scalar
    | _ => exact absurd rfl changed

theorem exists_array_of_coerce (h : Hint) (items : List Value) :
    ∃ coerced, h.coerce (.array items) = .array coerced ∧ coerced.length = items.length := by
  cases h with
  | list element => exact ⟨items.map element.coerce, rfl, List.length_map _⟩
  | _ => exact ⟨items, rfl, rfl⟩

theorem exists_map_of_coerce (h : Hint) (entries : List (Value × Value)) :
    ∃ coerced, h.coerce (.map entries) = .map coerced ∧ coerced.length = entries.length := by
  cases h with
  | map key value => exact ⟨_, rfl, List.length_map _⟩
  | _ => exact ⟨entries, rfl, rfl⟩

theorem keeps_coerce (h : Hint) (v : Value) : h.Keeps v (h.coerce v) where
  array := by
    rintro items rfl
    exact h.exists_array_of_coerce items
  map := by
    rintro entries rfl
    exact h.exists_map_of_coerce entries
  depth := h.depth_coerce v
  weight := h.weight_coerce v
  nil := by
    rintro rfl
    exact h.coerce_nil
  bool := by
    rintro b rfl
    exact h.coerce_bool b
  ext := by
    rintro tag data rfl
    exact h.coerce_ext tag data
  dynamic := by
    rintro rfl
    exact coerce_dynamic v
  foreign := coerce_foreign
  scalar := names_coerce

theorem child?_coerce (h : Hint) (v : Value) (step : Step) :
    (h.coerce v).child? step = (v.child? step).map (h.child step).coerce := by
  cases v with
  | array items =>
    cases step with
    | item i =>
      cases h with
      | list element => exact List.getElem?_map
      | _ => exact Option.map_id'.symm
    | key | value =>
      obtain ⟨coerced, made, -⟩ := h.exists_array_of_coerce items
      rw [made]
      rfl
  | map entries =>
    cases step with
    | item =>
      obtain ⟨coerced, made, -⟩ := h.exists_map_of_coerce entries
      rw [made]
      rfl
    | key | value =>
      cases h with
      | map key value => simp [coerce, Value.child?, child, Function.comp_def]
      | _ => exact Option.map_id'.symm
  | _ => rw [child?_eq_none (h.depth_coerce _), child?_eq_none rfl, Option.map_none]

theorem part?_coerce (h : Hint) (v : Value) (place : List Step) :
    (h.coerce v).part? place = (v.part? place).map (h.part place).coerce := by
  induction place generalizing h v with
  | nil => rfl
  | cons step place ih =>
    rw [part?, part?, child?_coerce]
    cases v.child? step with
    | none => rfl
    | some child => exact ih (h.child step) child

/-- The value has the expected type at every level. A nil fits every hint, and an integer of
either form fits a hint for integers. -/
def fits : Hint → Value → Bool
  | .dynamic, _ | _, .nil => true
  | .bool, .bool _ | .int, .int _ | .int, .uint _ | .float, .float _ => true
  | .string, .string _ | .bytes, .bytes _ => true
  | .list element, .array items => items.all element.fits
  | .map key value, .map entries => entries.all fun (k, v) => key.fits k && value.fits v
  | _, _ => false

theorem coerce_of_fits {h : Hint} {v : Value} (fit : h.fits v) : h.coerce v = v := by
  induction h generalizing v with
  | list element ih =>
    cases v with
    | array items =>
      rw [fits, List.all_eq_true] at fit
      have each : items.map element.coerce = items.map id :=
        List.map_congr_left fun v mem => ih (fit v mem)
      rw [coerce, each, List.map_id]
    | _ => rfl
  | map key value ihk ihv =>
    cases v with
    | map entries =>
      rw [fits, List.all_eq_true] at fit
      have each : entries.map (fun (k, v) => (key.coerce k, value.coerce v)) = entries.map id := by
        refine List.map_congr_left fun entry mem => ?_
        obtain ⟨fitKey, fitValue⟩ := Bool.and_eq_true_iff.mp (fit entry mem)
        exact Prod.ext (ihk fitKey) (ihv fitValue)
      rw [coerce, each, List.map_id]
    | _ => rfl
  | int =>
    cases v with
    | float => cases fit
    | _ => rfl
  | float =>
    cases v with
    | int | uint => cases fit
    | _ => rfl
  | string =>
    cases v with
    | bytes => cases fit
    | _ => rfl
  | bytes =>
    cases v with
    | string => cases fit
    | _ => rfl
  | dynamic | bool => rfl

end Hint

/-- A coercion makes each part of a value anew in its place, from that part and what the hint
expects there. So no item, key or entry is lost, moved or merged with an equal one; what no hint
reaches stays as it is, with everything below it; and what fits stays as it is, too. -/
theorem coercion_by_place (h : Hint) (v : Value) (place : List Step) :
    (h.coerce v).part? place = (v.part? place).map (h.part place).coerce ∧
    (∀ x ∈ v.part? place, (h.part place).Keeps x ((h.part place).coerce x)) ∧
    (h.fits v → h.coerce v = v) :=
  ⟨h.part?_coerce v place, fun x _ => (h.part place).keeps_coerce x, Hint.coerce_of_fits⟩

/-- A text among keys that are equal before and after, and a nested value that fits. -/
theorem coercion_by_place_nested :
    Value.bytes [0x62] ∈
      (Value.map [(.bytes [0x62], .nil), (.bytes [0x62], .int 1)]).part? [.key 1] ∧
    Hint.string.Keeps (.bytes [0x62]) (.string "b") ∧
    (Hint.list (.map .dynamic .int)).fits (.array [.map [(.bool true, .uint 7)], .nil]) ∧
    (Hint.list (.map .dynamic .int)).coerce (.array [.map [(.bool true, .uint 7)], .nil]) =
      .array [.map [(.bool true, .uint 7)], .nil] := by
  have text : Hint.string.coerce (.bytes [0x62]) = .string "b" := by cbv
  have fit : (Hint.list (.map .dynamic .int)).fits (.array [.map [(.bool true, .uint 7)], .nil]) :=
    rfl
  refine ⟨rfl, ?_, fit, (coercion_by_place _ _ []).2.2 fit⟩
  have kept := (coercion_by_place (.map .string .int)
    (.map [(.bytes [0x62], .nil), (.bytes [0x62], .int 1)]) [.key 1]).2.1 (.bytes [0x62]) rfl
  exact text ▸ kept

end HubPack
