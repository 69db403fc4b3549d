/-!
Finite maps from text to `α`, as lists in strictly increasing order of their keys. Each map has
one such list: maps that hold the same under every key are equal (`ext_get?`).
-/
namespace HubPack

structure TextMap (α : Type) where
  toList : List (String × α)
  ordered : toList.Pairwise fun a b => a.1 < b.1

namespace TextMap

variable {α : Type}

instance : EmptyCollection (TextMap α) := ⟨⟨[], .nil⟩⟩

instance : Inhabited (TextMap α) := ⟨∅⟩

instance [DecidableEq α] : DecidableEq (TextMap α) := fun a b =>
  decidable_of_iff (a.toList = b.toList) ⟨fun h => by cases a; cases b; simp_all, fun h => h ▸ rfl⟩

def size (m : TextMap α) : Nat := m.toList.length

def get? (m : TextMap α) (key : String) : Option α := m.toList.lookup key

def insertInto (key : String) (a : α) : List (String × α) → List (String × α)
  | [] => [(key, a)]
  | entry :: rest =>
    if key < entry.1 then (key, a) :: entry :: rest
    else if key = entry.1 then (key, a) :: rest
    else entry :: insertInto key a rest

theorem mem_insertInto {key : String} {a : α} {entry : String × α} {l : List (String × α)}
    (h : entry ∈ insertInto key a l) : entry = (key, a) ∨ entry ∈ l := by
  induction l with
  | nil => simpa [insertInto] using h
  | cons first rest ih =>
    rw [insertInto] at h
    split at h
    · simpa using h
    · split at h
      · rcases List.mem_cons.mp h with h | h
        · exact .inl h
        · exact .inr (.tail _ h)
      · rcases List.mem_cons.mp h with h | h
        · exact .inr (h ▸ .head _)
        · exact (ih h).imp id (.tail _)

theorem ordered_insertInto (key : String) (a : α) {l : List (String × α)}
    (h : l.Pairwise fun a b => a.1 < b.1) :
    (insertInto key a l).Pairwise fun a b => a.1 < b.1 := by
  induction l with
  | nil => simp [insertInto]
  | cons first rest ih =>
    obtain ⟨below, tail⟩ := List.pairwise_cons.mp h
    rw [insertInto]
    split
    · rename_i less
      refine List.pairwise_cons.mpr ⟨?_, h⟩
      intro entry mem
      rcases List.mem_cons.mp mem with rfl | mem
      · exact less
      · exact String.lt_trans less (below entry mem)
    · split
      · rename_i same
        exact List.pairwise_cons.mpr ⟨fun entry mem => same ▸ below entry mem, tail⟩
      · rename_i notLess notSame
        have greater : first.1 < key :=
          Std.lt_of_le_of_ne (String.not_lt.mp notLess) (fun same => notSame same.symm)
        refine List.pairwise_cons.mpr ⟨?_, ih tail⟩
        intro entry mem
        rcases mem_insertInto mem with rfl | mem
        · exact greater
        · exact below entry mem

def insert (m : TextMap α) (key : String) (a : α) : TextMap α :=
  ⟨insertInto key a m.toList, ordered_insertInto key a m.ordered⟩

def erase (m : TextMap α) (key : String) : TextMap α :=
  ⟨m.toList.filter fun entry => entry.1 != key, m.ordered.filter _⟩

theorem get?_empty (key : String) : (∅ : TextMap α).get? key = none := rfl

theorem lookup_cons (key : String) (entry : String × α) (rest : List (String × α)) :
    (entry :: rest).lookup key = if key = entry.1 then some entry.2 else rest.lookup key := by
  rw [List.lookup_cons]
  by_cases h : key = entry.1
  · simp [h]
  · rw [if_neg h, beq_eq_false_iff_ne.mpr h]

theorem lookup_insertInto (key other : String) (a : α) (l : List (String × α)) :
    (insertInto key a l).lookup other = if other = key then some a else l.lookup other := by
  induction l with
  | nil => simp only [insertInto, lookup_cons]
  | cons first rest ih =>
    rw [insertInto]
    split
    · simp only [lookup_cons]
    · split
      · rename_i same
        subst same
        simp only [lookup_cons]
        by_cases h : other = first.1 <;> simp [h]
      · rename_i different
        rw [lookup_cons, ih, lookup_cons]
        by_cases h : other = first.1
        · simp [h, Ne.symm different]
        · simp [h]

theorem lookup_filter (key other : String) (l : List (String × α)) :
    (l.filter fun entry => entry.1 != key).lookup other
      = if other = key then none else l.lookup other := by
  induction l with
  | nil => simp
  | cons first rest ih =>
    by_cases h : first.1 = key
    · rw [List.filter_cons_of_neg (by simp [h]), ih, lookup_cons]
      by_cases ho : other = key <;> simp [h, ho]
    · rw [List.filter_cons_of_pos (by simp [h]), lookup_cons, ih, lookup_cons]
      by_cases ho : other = first.1 <;> simp [h, ho]

theorem get?_insert (m : TextMap α) (key other : String) (a : α) :
    (m.insert key a).get? other = if other = key then some a else m.get? other :=
  lookup_insertInto key other a m.toList

theorem get?_erase (m : TextMap α) (key other : String) :
    (m.erase key).get? other = if other = key then none else m.get? other :=
  lookup_filter key other m.toList

theorem lookup_eq_some_iff {l : List (String × α)} (distinct : l.Pairwise fun a b => a.1 ≠ b.1)
    (key : String) (a : α) : l.lookup key = some a ↔ (key, a) ∈ l := by
  induction l with
  | nil => simp
  | cons first rest ih =>
    obtain ⟨apart, tail⟩ := List.pairwise_cons.mp distinct
    rw [lookup_cons, List.mem_cons]
    by_cases h : key = first.1
    · subst h
      have absent : (first.1, a) ∉ rest := fun mem => apart (first.1, a) mem rfl
      simp only [if_pos, Option.some.injEq, absent, or_false]
      exact ⟨fun h => by rw [← h], fun h => by rw [← h]⟩
    · have other : (key, a) ≠ first := fun eq => h (by rw [← eq])
      simp only [if_neg h, other, false_or]
      exact ih tail

theorem distinct (m : TextMap α) : m.toList.Pairwise fun a b => a.1 ≠ b.1 :=
  m.ordered.imp fun less same => String.ne_of_lt less same

theorem get?_eq_lookup_of_perm {m : TextMap α} {entries : List (String × α)}
    (order : entries.Perm m.toList) (key : String) : m.get? key = entries.lookup key := by
  have apart := (order.pairwise_iff fun different => Ne.symm different).mpr m.distinct
  apply Option.ext
  intro a
  rw [get?, lookup_eq_some_iff m.distinct, lookup_eq_some_iff apart, order.mem_iff]

theorem ext_get? {m n : TextMap α} (h : ∀ key, m.get? key = n.get? key) : m = n := by
  have nodup : ∀ k : TextMap α, k.toList.Nodup := fun k =>
    k.distinct.imp fun apart same => apart (congrArg Prod.fst same)
  have same : ∀ entry, entry ∈ m.toList ↔ entry ∈ n.toList := by
    intro entry
    rw [← lookup_eq_some_iff m.distinct, ← lookup_eq_some_iff n.distinct]
    exact iff_of_eq (congrArg (· = some entry.2) (h entry.1))
  have lists : m.toList = n.toList :=
    List.Perm.eq_of_pairwise
      (fun _ _ _ _ less greater => absurd greater (String.lt_asymm less)) m.ordered n.ordered
      ((List.perm_ext_iff_of_nodup (nodup m) (nodup n)).mpr fun entry => same entry)
  cases m
  cases n
  simpa using lists

/-- Of two entries with one key the later counts. -/
def insertMany (m : TextMap α) (entries : List (String × α)) : TextMap α :=
  entries.foldl (fun m entry => m.insert entry.1 entry.2) m

def ofList (entries : List (String × α)) : TextMap α := insertMany ∅ entries

theorem get?_insertMany (m : TextMap α) (entries : List (String × α)) (key : String) :
    (m.insertMany entries).get? key = (entries.reverse.lookup key).or (m.get? key) := by
  induction entries generalizing m with
  | nil => rfl
  | cons entry rest ih =>
    have step : m.insertMany (entry :: rest) = (m.insert entry.1 entry.2).insertMany rest := rfl
    rw [step, ih, get?_insert, List.reverse_cons, List.lookup_append, lookup_cons]
    by_cases h : key = entry.1 <;> simp [h]

theorem get?_ofList (entries : List (String × α)) (key : String) :
    (ofList entries).get? key = entries.reverse.lookup key := by
  rw [ofList, get?_insertMany, get?_empty, Option.or_none]

theorem eq_ofList_iff {m : TextMap α} {entries : List (String × α)} :
    m = ofList entries ↔ ∀ key, m.get? key = entries.reverse.lookup key := by
  constructor
  · rintro rfl key
    exact get?_ofList entries key
  · intro h
    exact ext_get? fun key => (h key).trans (get?_ofList entries key).symm

end TextMap

end HubPack
