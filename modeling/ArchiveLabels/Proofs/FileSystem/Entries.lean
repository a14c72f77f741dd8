import ArchiveLabels.Proofs.FileSystem.Places
import Mathlib.Data.String.Basic

/-!
# The entries of a directory as a list

`Directory.forall_of_subdirectories` is induction over a tree that sees a directory as the list of its
entries. As these stand in the order of their names, they are those that are found by name
(`Directory.mem_toList_iff`), and what is put together from them part by part is a matter of what is
found under each name (`Directory.flatMap_toList_eq`).
-/

namespace ArchiveLabels

namespace Directory

theorem sizeOf_lt_of_mem_toList {name : String} {e : Entry} :
    ∀ {entries : Directory}, (name, e) ∈ entries.toList → sizeOf e < sizeOf entries
  | .empty, h => by simp [toList] at h
  | .entry n f rest, h => by
    rw [toList, List.mem_cons] at h
    rcases h with h | h
    · obtain ⟨-, rfl⟩ := Prod.mk.inj h
      simp only [entry.sizeOf_spec]
      omega
    · have := sizeOf_lt_of_mem_toList h
      simp only [entry.sizeOf_spec]
      omega

/-- What holds of a directory if it holds of the directories in it holds of all directories. -/
theorem forall_of_subdirectories {P : Directory → Prop}
    (h : ∀ entries : Directory,
      (∀ name sub, (name, Entry.directory sub) ∈ entries.toList → P sub) → P entries)
    (entries : Directory) : P entries :=
  h entries fun _ sub _ => forall_of_subdirectories h sub
termination_by sizeOf entries
decreasing_by
  have := sizeOf_lt_of_mem_toList ‹_›
  simp only [Entry.directory.sizeOf_spec] at this
  omega

theorem get?_rest_eq_none {name other : String} {e : Entry} {rest : Directory}
    (ho : (entry name e rest).Ordered) (h : other ≤ name) : rest.get? other = none := by
  cases hg : rest.get? other with
  | none => rfl
  | some f => exact absurd (ho.2.1 other f hg) (not_lt.mpr h)

theorem get?_eq_none_of_lt {name other : String} {e : Entry} {rest : Directory}
    (ho : (entry name e rest).Ordered) (h : other < name) : (entry name e rest).get? other = none := by
  rw [get?, if_neg h.ne', get?_rest_eq_none ho h.le]

/-- In a directory in order the listed entries are those found by name. -/
theorem mem_toList_iff {name : String} {e : Entry} :
    ∀ {entries : Directory}, entries.Ordered →
      ((name, e) ∈ entries.toList ↔ entries.get? name = some e)
  | .empty, _ => by simp [toList, get?]
  | .entry n f rest, ho => by
    rw [toList, List.mem_cons, mem_toList_iff ho.2.2, get?]
    split
    · rename_i hn
      subst hn
      rw [get?_rest_eq_none ho (le_refl n)]
      simp [eq_comm]
    · rename_i hn
      simp [Ne.symm hn]

section

variable {β : Type} {h : String → Entry → List β}

/-- The first entry is no part of a list put together from the entries of a directory, if nothing is
found under its name in a directory of which the same list is put together. -/
theorem flatMap_toList_of_get?_eq_none {n : String} {e : Entry} {rest entries : Directory}
    (ho : (entry n e rest).Ordered) (hn : entries.get? n = none)
    (heq : ∀ name, ((entry n e rest).get? name).elim [] (h name) =
      (entries.get? name).elim [] (h name)) :
    ((entry n e rest).toList.flatMap fun x => h x.1 x.2) =
        (rest.toList.flatMap fun x => h x.1 x.2) ∧
      ∀ name, (rest.get? name).elim [] (h name) = (entries.get? name).elim [] (h name) := by
  refine ⟨?_, fun name => ?_⟩
  · have hnil := heq n
    rw [get?, if_pos rfl, hn] at hnil
    change h n e = [] at hnil
    rw [toList, List.flatMap_cons, hnil, List.nil_append]
  · by_cases hname : n = name
    · subst hname
      rw [hn, get?_rest_eq_none ho (le_refl n)]
    · rw [← heq name, get?, if_neg hname]

/-- Lists that are put together from the entries of directories are the same if the part of each name
is. -/
theorem flatMap_toList_eq :
    ∀ {entries entries' : Directory}, entries.Ordered → entries'.Ordered →
      (∀ name, (entries.get? name).elim [] (h name) = (entries'.get? name).elim [] (h name)) →
      (entries.toList.flatMap fun x => h x.1 x.2) = entries'.toList.flatMap fun x => h x.1 x.2
  | .empty, .empty, _, _, _ => rfl
  | .empty, .entry n e rest, ho, ho', heq => by
    obtain ⟨hlist, hrest⟩ := flatMap_toList_of_get?_eq_none ho' rfl fun name => (heq name).symm
    rw [hlist]
    exact flatMap_toList_eq ho ho'.2.2 fun name => (hrest name).symm
  | .entry n e rest, .empty, ho, ho', heq => by
    obtain ⟨hlist, hrest⟩ := flatMap_toList_of_get?_eq_none ho rfl heq
    rw [hlist]
    exact flatMap_toList_eq ho.2.2 ho' hrest
  | .entry n e rest, .entry n' e' rest', ho, ho', heq => by
    rcases lt_trichotomy n n' with hlt | rfl | hgt
    · obtain ⟨hlist, hrest⟩ :=
        flatMap_toList_of_get?_eq_none ho (get?_eq_none_of_lt ho' hlt) heq
      rw [hlist]
      exact flatMap_toList_eq ho.2.2 ho' hrest
    · have hn : h n e = h n e' := by simpa [get?] using heq n
      rw [toList, toList, List.flatMap_cons, List.flatMap_cons, hn]
      refine congrArg _ (flatMap_toList_eq ho.2.2 ho'.2.2 fun name => ?_)
      by_cases hname : n = name
      · subst hname
        rw [get?_rest_eq_none ho (le_refl n), get?_rest_eq_none ho' (le_refl n)]
      · simpa [get?, hname] using heq name
    · obtain ⟨hlist, hrest⟩ :=
        flatMap_toList_of_get?_eq_none ho' (get?_eq_none_of_lt ho hgt) fun name => (heq name).symm
      rw [hlist]
      exact flatMap_toList_eq ho ho'.2.2 fun name => (hrest name).symm
termination_by entries entries' => sizeOf entries + sizeOf entries'

end

end Directory

end ArchiveLabels
