import HubPack.Proofs.Binding
import HubPack.Proofs.Value.Coercion

namespace HubPack

namespace Hint

def asBytes : Hint → Hint
  | .string => .bytes
  | .list element => .list element.asBytes
  | .map key value => .map key.asBytes value.asBytes
  | h => h

def asString : Hint → Hint
  | .bytes => .string
  | .list element => .list element.asString
  | .map key value => .map key.asString value.asString
  | h => h

@[simp] theorem asBytes_asBytes (h : Hint) : h.asBytes.asBytes = h.asBytes := by
  induction h with
  | list element ih => rw [asBytes, asBytes, ih]
  | map key value ihk ihv => rw [asBytes, asBytes, ihk, ihv]
  | _ => rfl

@[simp] theorem asBytes_asString (h : Hint) : h.asString.asBytes = h.asBytes := by
  induction h with
  | list element ih => rw [asString, asBytes, asBytes, ih]
  | map key value ihk ihv => rw [asString, asBytes, asBytes, ihk, ihv]
  | _ => rfl

/-- Bytes that are no text come through a string hint as they are, all others as their text. -/
theorem bytes_coerce_string (v : Value) :
    Hint.bytes.coerce (Hint.string.coerce v) = Hint.bytes.coerce v := by
  cases v with
  | bytes bs =>
    cases text : Utf8.decode bs with
    | ok s =>
      rw [coerce_text text, Utf8.eq_encode_of_decode text]
      rfl
    | error fault => rw [coerce_not_text text]
  | _ => rfl

theorem string_coerce_bytes (v : Value) :
    Hint.string.coerce (Hint.bytes.coerce v) = Hint.string.coerce v := by
  cases v with
  | string s => exact coerce_text (Utf8.decode_encode s)
  | _ => rfl

/-- Of two hints that expect the same but for text and bytes, the later one decides. -/
theorem coerce_coerce_of_asBytes {g h : Hint} (same : g.asBytes = h.asBytes) (v : Value) :
    g.coerce (h.coerce v) = g.coerce v := by
  -- the other hint has the same constructor, or asks for bytes where this one asks for text
  induction h generalizing g v with
  | dynamic | bool => rfl
  | int =>
    cases g with
    | int => exact coerce_coerce .int v
    | _ => cases same
  | float =>
    cases g with
    | float => exact coerce_coerce .float v
    | _ => cases same
  | string =>
    cases g with
    | string => exact coerce_coerce .string v
    | bytes => exact bytes_coerce_string v
    | _ => cases same
  | bytes =>
    cases g with
    | string => exact string_coerce_bytes v
    | bytes => exact coerce_coerce .bytes v
    | _ => cases same
  | list element ih =>
    cases g with
    | list element' =>
      have inner : element'.asBytes = element.asBytes := Hint.list.inj same
      cases v with
      | array items =>
        simp only [coerce, List.map_map]
        exact congrArg Value.array (List.map_congr_left fun v _ => ih inner v)
      | _ => rfl
    | _ => cases same
  | map key value ihk ihv =>
    cases g with
    | map key' value' =>
      obtain ⟨sameKey, sameValue⟩ := Hint.map.inj same
      cases v with
      | map entries =>
        simp only [coerce, List.map_map]
        refine congrArg Value.map (List.map_congr_left fun entry _ => ?_)
        exact Prod.ext (ihk sameKey entry.1) (ihv sameValue entry.2)
      | _ => rfl
    | _ => cases same

end Hint

/-- Coercion is idempotent, and so is the binding of arguments to types. Each argument is bound in
its place, by the type in that place, and stays as it is if there is none; no argument is lost or
added, however many types there are. -/
theorem coercion_stable :
    (∀ (h : Hint) (v : Value), h.coerce (h.coerce v) = h.coerce v) ∧
    ∀ (hints : List Hint) (arguments : List Value),
      coerceArguments hints (coerceArguments hints arguments) =
        coerceArguments hints arguments ∧
      (coerceArguments hints arguments).length = arguments.length ∧
      ∀ i : Nat,
        (coerceArguments hints arguments)[i]? = arguments[i]?.map (coerceTo hints[i]?) := by
  refine ⟨Hint.coerce_coerce, fun hints arguments => ⟨?_, ?_, fun i => ?_⟩⟩
  · exact coerceArguments_coerceArguments hints arguments
  · rw [coerceArguments_eq_mapIdx, List.length_mapIdx]
  · rw [coerceArguments_eq_mapIdx, List.getElem?_mapIdx]

/-- Text and bytes turn into each other without loss, at every level of a value: a coercion towards
bytes leaves no trace in a later one towards strings, nor the other way round. Bytes survive a
string hint whether or not they are text, and a string survives a bytes hint. -/
theorem text_and_bytes_lossless :
    (∀ (h : Hint) (v : Value),
      h.asString.coerce (h.asBytes.coerce v) = h.asString.coerce v ∧
      h.asBytes.coerce (h.asString.coerce v) = h.asBytes.coerce v) ∧
    (∀ bs : Bytes, Hint.bytes.coerce (Hint.string.coerce (.bytes bs)) = .bytes bs) ∧
    ∀ s : String, Hint.string.coerce (Hint.bytes.coerce (.string s)) = .string s := by
  refine ⟨fun h v => ⟨?_, ?_⟩, fun bs => ?_, fun s => ?_⟩
  · exact Hint.coerce_coerce_of_asBytes (by simp) v
  · exact Hint.coerce_coerce_of_asBytes (by simp) v
  · exact Hint.bytes_coerce_string (.bytes bs)
  · exact Hint.string_coerce_bytes (.string s)

example : (Hint.list .string).coerce (.array [.bytes [0x68, 0x69], .bytes [0xff]]) =
    .array [.string "hi", .bytes [0xff]] := by cbv

end HubPack
