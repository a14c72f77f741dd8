import ArchiveLabels.Json.Decode
import Mathlib.Data.List.Nodup

/-!
# Reading typed values back

A list of values is read back if each of its items is (`Json.list?_arr`), and an object with no name
twice is read field by field (`Json.exactFields?_obj`).
-/

namespace ArchiveLabels.Json

variable {α : Type}

theorem mapM_map {β : Type} {f : α → β} {g : β → Option α} {as : List α}
    (h : ∀ a ∈ as, g (f a) = some a) : (as.map f).mapM g = some as := by
  induction as with
  | nil => rfl
  | cons a as ih =>
    rw [List.map_cons, List.mapM_cons, h a List.mem_cons_self,
      ih fun b hb => h b (List.mem_cons_of_mem a hb)]
    rfl

/-- A list decodes when its elements do. -/
theorem list?_arr {f : α → Json} {g : Json → Option α} {as : List α}
    (h : ∀ a ∈ as, g (f a) = some a) : list? g (.arr (as.map f)) = some as :=
  mapM_map h

theorem list?_strings (ss : List String) : list? string? (strings ss) = some ss :=
  list?_arr fun _ _ => rfl

theorem natBelow?_nat {n limit : Nat} (h : n < limit) : natBelow? limit (nat n) = some n := by
  simp [natBelow?, nat, h]

theorem nullable?_ofString? (s : Option String) : nullable? string? (ofString? s) = some s := by
  cases s <;> rfl

/-- An object that has no name twice has the fields of a structure. -/
theorem exactFields?_obj (fields : List (String × Json)) (h : (fields.map Prod.fst).Nodup)
    (names : List String) (least : Nat) :
    exactFields? names least (.obj fields) = some fields := by
  have hone : ∀ n ∈ names, (fields.filter fun f => f.1 == n).length ≤ 1 := by
    intro n _
    have hcount := List.nodup_iff_count_le_one.mp h n
    rwa [List.count, List.countP_map, List.countP_eq_length_filter] at hcount
  change fields? names least (.obj fields) = some fields
  rw [fields?, if_pos (by simpa using hone)]

end ArchiveLabels.Json
