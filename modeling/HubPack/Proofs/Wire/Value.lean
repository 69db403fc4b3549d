import Mathlib
import HubPack.Proofs.Value.Nesting

/-!
The wire forms of values, with every width that a writer may choose. The relations name each byte
themselves: they use neither the readers, nor the writers, nor the table of markers.
-/
namespace HubPack.Wire

/-- How lengths are written: some short ones as a byte of their own, any one of at most `width`
bytes after a first byte that announces the width. -/
structure LengthForms where
  short : List (Nat × Nat)
  wide : List (Nat × Nat)

namespace LengthForms

def string : LengthForms where
  short := (List.range 32).map fun n => (n, 0xa0 + n)
  wide := [(0xd9, 1), (0xda, 2), (0xdb, 4)]

def bytes : LengthForms where
  short := []
  wide := [(0xc4, 1), (0xc5, 2), (0xc6, 4)]

def array : LengthForms where
  short := (List.range 16).map fun n => (n, 0x90 + n)
  wide := [(0xdc, 2), (0xdd, 4)]

def map : LengthForms where
  short := (List.range 16).map fun n => (n, 0x80 + n)
  wide := [(0xde, 2), (0xdf, 4)]

def ext : LengthForms where
  short := [(1, 0xd4), (2, 0xd5), (4, 0xd6), (8, 0xd7), (16, 0xd8)]
  wide := [(0xc7, 1), (0xc8, 2), (0xc9, 4)]

end LengthForms

inductive Length (forms : LengthForms) : Nat → Bytes → Prop where
  | short {n first : Nat} : (n, first) ∈ forms.short → Length forms n [UInt8.ofNat first]
  | wide {n first width : Nat} : (first, width) ∈ forms.wide → n < 256 ^ width →
      Length forms n (UInt8.ofNat first :: bigEndian width n)

/-- Integers from `-2 ^ 63` to `2 ^ 64 - 1`. -/
inductive Integer : Int → Bytes → Prop where
  | positive {n : Nat} : n < 128 → Integer n [UInt8.ofNat n]
  | negative {n : Nat} : 0 < n → n ≤ 32 → Integer (-n) [UInt8.ofNat (256 - n)]
  | unsigned {n first width : Nat} :
      (first, width) ∈ [(0xcc, 1), (0xcd, 2), (0xce, 4), (0xcf, 8)] → n < 256 ^ width →
      Integer n (UInt8.ofNat first :: bigEndian width n)
  | signed {i : Int} {first width : Nat} :
      (first, width) ∈ [(0xd0, 1), (0xd1, 2), (0xd2, 4), (0xd3, 8)] →
      -(256 ^ width) ≤ 2 * i → 2 * i < 256 ^ width →
      Integer i (UInt8.ofNat first :: bigEndian width (patternOf width i))

inductive Nil : Bytes → Prop where
  | mk : Nil [0xc0]

inductive Flag : Bool → Bytes → Prop where
  | false : Flag false [0xc2]
  | true : Flag true [0xc3]

inductive Text : String → Bytes → Prop where
  | mk {s : String} {head : Bytes} : Length .string (Utf8.encode s).length head →
      Text s (head ++ Utf8.encode s)

inductive Raw : Bytes → Bytes → Prop where
  | mk {bs head : Bytes} : Length .bytes bs.length head → Raw bs (head ++ bs)

inductive Sequence {α : Type} (P : α → Bytes → Prop) : List α → Bytes → Prop where
  | nil : Sequence P [] []
  | cons {a : α} {as : List α} {e es : Bytes} : P a e → Sequence P as es →
      Sequence P (a :: as) (e ++ es)

inductive Pair {α β : Type} (P : α → Bytes → Prop) (Q : β → Bytes → Prop) :
    α × β → Bytes → Prop where
  | mk {a : α} {b : β} {e f : Bytes} : P a e → Q b f → Pair P Q (a, b) (e ++ f)

inductive ArrayOf {α : Type} (P : α → Bytes → Prop) : List α → Bytes → Prop where
  | mk {as : List α} {head body : Bytes} : Length .array as.length head → Sequence P as body →
      ArrayOf P as (head ++ body)

inductive MapOf {α β : Type} (P : α → Bytes → Prop) (Q : β → Bytes → Prop) :
    List (α × β) → Bytes → Prop where
  | mk {entries : List (α × β)} {head body : Bytes} : Length .map entries.length head →
      Sequence (Pair P Q) entries body → MapOf P Q entries (head ++ body)

/-- The bytes of a value. An integer is `uint` only above the greatest signed one; a number of
32 bits is widened; the tag of an extension stands between its length and its data. -/
inductive Encodes : Value → Bytes → Prop where
  | nil {e : Bytes} : Nil e → Encodes .nil e
  | bool {b : Bool} {e : Bytes} : Flag b e → Encodes (.bool b) e
  | int {i : Int64} {e : Bytes} : Integer i.toInt e → Encodes (.int i) e
  | uint {u : UInt64} {e : Bytes} : 2 ^ 63 ≤ u.toNat → Integer u.toNat e → Encodes (.uint u) e
  | single (bits : UInt32) :
      Encodes (.float (.ofBinary32 bits)) (0xca :: bigEndian 4 bits.toNat)
  | double (f : Binary64) : Encodes (.float f) (0xcb :: bigEndian 8 f.bits.toNat)
  | string {s : String} {e : Bytes} : Text s e → Encodes (.string s) e
  | bytes {bs e : Bytes} : Raw bs e → Encodes (.bytes bs) e
  | array {items : List Value} {head body : Bytes} : Length .array items.length head →
      Sequence Encodes items body → Encodes (.array items) (head ++ body)
  | map {entries : List (Value × Value)} {head body : Bytes} : Length .map entries.length head →
      Sequence (Pair Encodes Encodes) entries body → Encodes (.map entries) (head ++ body)
  | ext {tag : Int8} {data head : Bytes} : Length .ext data.length head →
      Encodes (.ext tag data) (head ++ tag.toUInt8 :: data)

def Within (limit : Nat) (v : Value) (e : Bytes) : Prop := Encodes v e ∧ v.depth ≤ limit

section Sequence

variable {α : Type} {P Q : α → Bytes → Prop}

theorem Sequence.imp (h : ∀ a e, P a e → Q a e) {as : List α} {e : Bytes}
    (s : Sequence P as e) : Sequence Q as e := by
  induction s with
  | nil => exact .nil
  | cons head _ ih => exact .cons (h _ _ head) ih

theorem Sequence.forall_mem {as : List α} {e : Bytes} (s : Sequence P as e) :
    ∀ a ∈ as, ∃ e, P a e := by
  induction s with
  | nil => exact nofun
  | cons head _ ih => exact List.forall_mem_cons.mpr ⟨⟨_, head⟩, ih⟩

theorem Sequence.snoc {as : List α} {a : α} {e f : Bytes} (s : Sequence P as e) (h : P a f) :
    Sequence P (as ++ [a]) (e ++ f) := by
  induction s with
  | nil => simpa using Sequence.cons h .nil
  | cons head _ ih =>
    rw [List.append_assoc]
    exact .cons head ih

theorem sequence_and_iff {p : α → Prop} {as : List α} {e : Bytes} :
    Sequence (fun a e => P a e ∧ p a) as e ↔ Sequence P as e ∧ ∀ a ∈ as, p a := by
  constructor
  · intro s
    induction s with
    | nil => exact ⟨.nil, by simp⟩
    | cons head _ ih => exact ⟨.cons head.1 ih.1, List.forall_mem_cons.mpr ⟨head.2, ih.2⟩⟩
  · rintro ⟨s, h⟩
    induction s with
    | nil => exact .nil
    | cons head _ ih =>
      obtain ⟨first, rest⟩ := List.forall_mem_cons.mp h
      exact .cons ⟨head, first⟩ (ih rest)

theorem sequence_iff {as : List α} {e : Bytes} :
    Sequence P as e ↔ ∃ parts, List.Forall₂ P as parts ∧ e = parts.flatten := by
  constructor
  · intro s
    induction s with
    | nil => exact ⟨[], .nil, rfl⟩
    | cons head _ ih =>
      obtain ⟨parts, rest, rfl⟩ := ih
      exact ⟨_ :: parts, .cons head rest, rfl⟩
  · rintro ⟨parts, h, rfl⟩
    induction h with
    | nil => exact .nil
    | cons head _ ih => exact .cons head ih

end Sequence

theorem within_array_iff {limit : Nat} {items : List Value} {e : Bytes} :
    Within (limit + 1) (.array items) e ↔ ArrayOf (Within limit) items e := by
  constructor
  · rintro ⟨h, deep⟩
    cases h with
    | array head body =>
      exact .mk head (sequence_and_iff.mpr ⟨body, Value.depth_array_le_iff.mp deep⟩)
  · rintro ⟨head, body⟩
    obtain ⟨plain, deep⟩ := sequence_and_iff.mp body
    exact ⟨.array head plain, Value.depth_array_le_iff.mpr deep⟩

theorem pair_within_iff {limit : Nat} {entry : Value × Value} {e : Bytes} :
    Pair (Within limit) (Within limit) entry e ↔
      Pair Encodes Encodes entry e ∧ (entry.1.depth ≤ limit ∧ entry.2.depth ≤ limit) := by
  constructor
  · rintro ⟨⟨key, shallow⟩, ⟨value, deep⟩⟩
    exact ⟨.mk key value, shallow, deep⟩
  · rintro ⟨⟨key, value⟩, shallow, deep⟩
    exact .mk ⟨key, shallow⟩ ⟨value, deep⟩

theorem within_map_iff {limit : Nat} {entries : List (Value × Value)} {e : Bytes} :
    Within (limit + 1) (.map entries) e ↔ MapOf (Within limit) (Within limit) entries e := by
  constructor
  · rintro ⟨h, deep⟩
    cases h with
    | map head body =>
      have both := sequence_and_iff.mpr ⟨body, Value.depth_map_le_iff.mp deep⟩
      exact .mk head (both.imp fun _ _ => pair_within_iff.mpr)
  · rintro ⟨head, body⟩
    obtain ⟨plain, deep⟩ := sequence_and_iff.mp (body.imp fun _ _ => pair_within_iff.mp)
    exact ⟨.map head plain, Value.depth_map_le_iff.mpr deep⟩

end HubPack.Wire
