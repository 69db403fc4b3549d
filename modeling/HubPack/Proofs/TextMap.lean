import Mathlib
import HubPack.TextMap

namespace HubPack.TextMap

variable {α : Type} (w : String × α → Nat)

theorem sum_insertInto_le (key : String) (a : α) (l : List (String × α)) :
    ((insertInto key a l).map w).sum ≤ w (key, a) + (l.map w).sum := by
  induction l with
  | nil => simp [insertInto]
  | cons entry rest ih =>
    rw [insertInto]
    split
    · simp
    · split <;> simp only [List.map_cons, List.sum_cons] <;> omega

theorem sum_insertMany_le (m : TextMap α) (entries : List (String × α)) :
    ((m.insertMany entries).toList.map w).sum ≤ (m.toList.map w).sum + (entries.map w).sum := by
  induction entries generalizing m with
  | nil => exact Nat.le_refl _
  | cons entry rest ih =>
    have later := ih (m.insert entry.1 entry.2)
    have first : ((m.insert entry.1 entry.2).toList.map w).sum ≤ w entry + (m.toList.map w).sum :=
      sum_insertInto_le w entry.1 entry.2 m.toList
    have step : m.insertMany (entry :: rest) = (m.insert entry.1 entry.2).insertMany rest := rfl
    rw [step, List.map_cons, List.sum_cons]
    omega

theorem sum_ofList_le (entries : List (String × α)) :
    ((ofList entries).toList.map w).sum ≤ (entries.map w).sum := by
  have most := sum_insertMany_le w (∅ : TextMap α) entries
  rwa [show ((∅ : TextMap α).toList.map w).sum = 0 from rfl, Nat.zero_add] at most

theorem length_ofList_le (entries : List (String × α)) :
    (ofList entries).toList.length ≤ entries.length := by
  simpa [List.map_const'] using sum_ofList_le (fun _ => 1) entries

end HubPack.TextMap
