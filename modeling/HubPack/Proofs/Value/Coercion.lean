import HubPack.Hint
import HubPack.Proofs.Value.Parts
import HubPack.Text.Utf8.Lemmas

namespace HubPack
open Value

namespace Hint

/-- A number or a text that becomes another one. -/
structure Converts (h : Hint) (v w : Value) : Prop where
  made : h.coerce v = w
  before : v.IsPlain
  after : w.IsPlain
  signed : ∀ u, w ≠ .uint u
  length : w.textLength = v.textLength
  stays : h.coerce w = w

theorem coerce_text {bs : Bytes} {s : String} (text : Utf8.decode bs = .ok s) :
    Hint.string.coerce (.bytes bs) = .string s := by
  simp only [coerce, text]

theorem coerce_not_text {bs : Bytes} {fault : Utf8.Fault} (h : Utf8.decode bs = .error fault) :
    Hint.string.coerce (.bytes bs) = .bytes bs := by
  simp only [coerce, h]

/-- What a coercion does: a value stays, or it is converted, or its elements are coerced. -/
inductive Coerced : Hint → Value → Value → Prop where
  | same {h : Hint} {v : Value} : h.coerce v = v → Coerced h v v
  | converted {h : Hint} {v w : Value} : h.Converts v w → Coerced h v w
  | list {element : Hint} {items : List Value} : (∀ v, Coerced element v (element.coerce v)) →
      Coerced (.list element) (.array items) (.array (items.map element.coerce))
  | map {key value : Hint} {entries : List (Value × Value)} :
      (∀ v, Coerced key v (key.coerce v)) → (∀ v, Coerced value v (value.coerce v)) →
      Coerced (.map key value) (.map entries)
        (.map (entries.map fun (k, v) => (key.coerce k, value.coerce v)))

theorem coerced (h : Hint) (v : Value) : h.Coerced v (h.coerce v) := by
  -- of the conversions only two depend on the value: to an integer, and to a string
  induction h generalizing v with
  | dynamic | bool => exact .same rfl
  | int =>
    cases v with
    | float f =>
      cases whole : f.toInt64? with
      | some i =>
        have made : Hint.int.coerce (.float f) = .int i := by simp only [coerce, whole]
        rw [made]
        exact .converted ⟨made, trivial, trivial, nofun, rfl, rfl⟩
      | none =>
        have kept : Hint.int.coerce (.float f) = .float f := by simp only [coerce, whole]
        rw [kept]
        exact .same kept
    | _ => exact .same rfl
  | float =>
    cases v with
    | int | uint => exact .converted ⟨rfl, trivial, trivial, nofun, rfl, rfl⟩
    | _ => exact .same rfl
  | string =>
    cases v with
    | bytes bs =>
      cases text : Utf8.decode bs with
      | ok s =>
        have made := coerce_text text
        have length : (Utf8.encode s).length = bs.length := by
          rw [Utf8.eq_encode_of_decode text]
        rw [made]
        exact .converted ⟨made, trivial, trivial, nofun, length, rfl⟩
      | error fault =>
        have kept := coerce_not_text text
        rw [kept]
        exact .same kept
    | _ => exact .same rfl
  | bytes =>
    cases v with
    | string s => exact .converted ⟨rfl, trivial, trivial, nofun, rfl, rfl⟩
    | _ => exact .same rfl
  | list element ih =>
    cases v with
    | array items => exact .list ih
    | _ => exact .same rfl
  | map key value ihk ihv =>
    cases v with
    | map entries => exact .map ihk ihv
    | _ => exact .same rfl

theorem Coerced.count_eq {h : Hint} {v w : Value} (c : h.Coerced v w) : w.count = v.count := by
  cases c with
  | same => rfl
  | converted c => rw [c.before.count_eq, c.after.count_eq]
  | list => exact List.length_map _
  | map => exact List.length_map _

theorem Coerced.eq_uint {h : Hint} {v : Value} {u : UInt64} (c : h.Coerced v (.uint u)) :
    v = .uint u := by
  cases c with
  | same => rfl
  | converted c => exact absurd rfl (c.signed u)

theorem coerce_induct {motive : Hint → Value → Value → Prop}
    (same : ∀ {h : Hint} {v : Value}, h.coerce v = v → motive h v v)
    (converted : ∀ {h : Hint} {v w : Value}, h.Converts v w → motive h v w)
    (list : ∀ {element : Hint} {items : List Value},
      (∀ v, motive element v (element.coerce v)) →
      motive (.list element) (.array items) (.array (items.map element.coerce)))
    (map : ∀ {key value : Hint} {entries : List (Value × Value)},
      (∀ v, motive key v (key.coerce v)) → (∀ v, motive value v (value.coerce v)) →
      motive (.map key value) (.map entries)
        (.map (entries.map fun (k, v) => (key.coerce k, value.coerce v))))
    (h : Hint) (v : Value) : motive h v (h.coerce v) := by
  have c := h.coerced v
  generalize h.coerce v = w at c ⊢
  induction c with
  | same kept => exact same kept
  | converted c => exact converted c
  | list _ ih => exact list ih
  | map _ _ ihk ihv => exact map ihk ihv

theorem depth_coerce (h : Hint) (v : Value) : (h.coerce v).depth = v.depth := by
  induction h, v using coerce_induct with
  | same => rfl
  | converted c => rw [c.before.depth_eq, c.after.depth_eq]
  | @list element items ih =>
    have each : depthItems (items.map element.coerce) = depthItems items := by
      induction items with
      | nil => rfl
      | cons v vs tail => rw [List.map_cons, depthItems, depthItems, ih, tail]
    rw [depth, depth, each]
  | @map key value entries ihk ihv =>
    have each : depthEntries (entries.map fun (k, v) => (key.coerce k, value.coerce v)) =
        depthEntries entries := by
      induction entries with
      | nil => rfl
      | cons entry rest tail => rw [List.map_cons, depthEntries, depthEntries, ihk, ihv, tail]
    rw [depth, depth, each]

theorem coerce_coerce (h : Hint) (v : Value) : h.coerce (h.coerce v) = h.coerce v := by
  induction h, v using coerce_induct with
  | same kept => exact kept
  | converted c => exact c.stays
  | list ih =>
    rw [coerce, List.map_map]
    exact congrArg Value.array (List.map_congr_left fun v _ => ih v)
  | map ihk ihv =>
    rw [coerce, List.map_map]
    refine congrArg Value.map (List.map_congr_left fun entry _ => ?_)
    exact Prod.ext (ihk entry.1) (ihv entry.2)

theorem exists_part_of_coerce {h : Hint} {v x : Value} (part : (h.coerce v).HasPart x) :
    ∃ (g : Hint) (w : Value), v.HasPart w ∧ x = g.coerce w := by
  induction h, v using coerce_induct generalizing x with
  | same => exact ⟨.dynamic, x, part, rfl⟩
  | @converted h v w c => exact ⟨h, v, .self v, (c.after.eq_of_part part).trans c.made.symm⟩
  | list ih =>
    cases part with
    | self => exact ⟨.list _, _, .self _, rfl⟩
    | item mem part =>
      obtain ⟨w, known, rfl⟩ := List.mem_map.mp mem
      obtain ⟨g, y, inner, rfl⟩ := ih w part
      exact ⟨g, y, .item known inner, rfl⟩
  | map ihk ihv =>
    cases part with
    | self => exact ⟨.map _ _, _, .self _, rfl⟩
    | key mem part =>
      obtain ⟨w, known, rfl⟩ := List.mem_map.mp mem
      obtain ⟨g, y, inner, rfl⟩ := ihk w.1 part
      exact ⟨g, y, .key known inner, rfl⟩
    | value mem part =>
      obtain ⟨w, known, rfl⟩ := List.mem_map.mp mem
      obtain ⟨g, y, inner, rfl⟩ := ihv w.2 part
      exact ⟨g, y, .value known inner, rfl⟩

theorem isNormal_coerce {v : Value} (normal : v.IsNormal) (h : Hint) : (h.coerce v).IsNormal := by
  intro u part
  obtain ⟨g, w, known, made⟩ := exists_part_of_coerce part
  have c := g.coerced w
  rw [← made] at c
  exact normal u (c.eq_uint ▸ known)

theorem isCounted_coerce {v : Value} (counted : v.IsCounted) (h : Hint) :
    (h.coerce v).IsCounted := by
  intro x part
  obtain ⟨g, w, known, rfl⟩ := exists_part_of_coerce part
  rw [(g.coerced w).count_eq]
  exact counted w known

end Hint

section Optional

variable (hint : Option Hint)

theorem depth_coerceTo (v : Value) : (coerceTo hint v).depth = v.depth := by
  cases hint with
  | none => rfl
  | some h => exact h.depth_coerce v

theorem isNormal_coerceTo {v : Value} (normal : v.IsNormal) : (coerceTo hint v).IsNormal := by
  cases hint with
  | none => exact normal
  | some h => exact h.isNormal_coerce normal

theorem isCounted_coerceTo {v : Value} (counted : v.IsCounted) :
    (coerceTo hint v).IsCounted := by
  cases hint with
  | none => exact counted
  | some h => exact h.isCounted_coerce counted

theorem coerceTo_coerceTo (v : Value) : coerceTo hint (coerceTo hint v) = coerceTo hint v := by
  cases hint with
  | none => rfl
  | some h => exact h.coerce_coerce v

end Optional

theorem coerceArguments_coerceArguments (hints : List Hint) (vs : List Value) :
    coerceArguments hints (coerceArguments hints vs) = coerceArguments hints vs := by
  induction hints generalizing vs with
  | nil => cases vs <;> rfl
  | cons hint hints ih =>
    cases vs with
    | nil => rfl
    | cons v vs => rw [coerceArguments, coerceArguments, hint.coerce_coerce, ih]

end HubPack
