import ArchiveLabels.Label.Tree
import Mathlib.Data.List.Chain
import Mathlib.Logic.Relation

/-!
# Trees in document order

The nodes below a node are found by their numbers alone : they follow it without a gap. This holds
of a tree whose every node hangs on the last node before it or on one of those around that
(`Tree.PreOrder`); in such a tree the nodes that `Tree.descendants` counts are those from which
parents lead to the node (`Tree.PreOrder.mem_descendants_iff`). A tree that grows keeps in this
order as long as a new node is put under a node that is open, where the open nodes are a
`Tree.Spine` : each is the parent of the one before it, and the first is around the last node of the
tree.
-/

namespace ArchiveLabels.Label.Tree

variable {t t' : Tree} {n : Node} {i j k p : Nat}

/-! ## Parents -/

/-- Node `i` is the parent of node `j`. -/
def IsParent (t : Tree) (i j : Nat) : Prop :=
  t.parent? j = some i

/-- Parents lead from node `j` to node `i`, in one step or more. -/
def Below (t : Tree) (i j : Nat) : Prop :=
  Relation.TransGen t.IsParent i j

/-- Node `j` is node `i` or below it. -/
def Within (t : Tree) (i j : Nat) : Prop :=
  Relation.ReflTransGen t.IsParent i j

theorem parent?_eq_none (h : t.size ≤ i) : t.parent? i = none := by
  simp only [parent?, node, Array.getD_eq_getD_getElem?, Array.getElem?_eq_none h, Option.getD_none]
  rfl

theorem IsParent.lt_size (h : t.IsParent i j) : j < t.size := by
  by_contra hj
  rw [IsParent, parent?_eq_none (Nat.le_of_not_lt hj)] at h
  cases h

/-- The children of a node are the nodes it is the parent of. -/
theorem mem_children_iff : j ∈ t.children i ↔ t.IsParent i j := by
  simp only [children, List.mem_filter, List.mem_range, beq_iff_eq]
  exact ⟨And.right, fun h => ⟨h.lt_size, h⟩⟩

/-! ## Document order -/

/-- Every node but the first has a parent, which is the node before it or one of those around that.
-/
structure PreOrder (t : Tree) : Prop where
  size_pos : 0 < t.size
  root : t.parent? 0 = none
  parent : ∀ i, i + 1 < t.size → ∃ p ≤ i, t.IsParent p (i + 1) ∧ t.Within p i

namespace PreOrder

variable (h : t.PreOrder)
include h

/-- Only the root has no parent. -/
theorem parent?_eq_none_iff (hi : i < t.size) : t.parent? i = none ↔ i = 0 := by
  constructor
  · intro hnone
    cases i with
    | zero => rfl
    | succ i =>
      obtain ⟨p, -, hp, -⟩ := h.parent i hi
      rw [hp] at hnone
      cases hnone
  · rintro rfl
    exact h.root

/-- A parent comes before its children. -/
theorem lt_of_isParent (hp : t.IsParent p j) : p < j := by
  cases j with
  | zero =>
    rw [IsParent, h.root] at hp
    cases hp
  | succ j =>
    obtain ⟨q, hq, hparent, -⟩ := h.parent j hp.lt_size
    obtain rfl := Option.some.inj (hp.symm.trans hparent)
    omega

/-- A node comes before all below it. -/
theorem lt_of_below (hb : t.Below i j) : i < j := by
  induction hb with
  | single hp => exact h.lt_of_isParent hp
  | tail _ hp ih => exact ih.trans (h.lt_of_isParent hp)

theorem le_of_within (hw : t.Within i j) : i ≤ j := by
  rcases Relation.reflTransGen_iff_eq_or_transGen.mp hw with rfl | hb
  · exact le_rfl
  · exact (h.lt_of_below hb).le

/-- What comes between a node and one below it is below it, too : once the nodes below are left, a
node has a parent that is not among them. -/
theorem below_of_lt_of_le (hb : t.Below i k) (hij : i < j) (hjk : j ≤ k) : t.Below i j := by
  induction k, hjk using Nat.le_induction with
  | base => exact hb
  | succ k hjk ih =>
    obtain ⟨p, hp, hparent, hwithin⟩ := h.parent k (by
      obtain ⟨q, -, hq⟩ := Relation.TransGen.tail'_iff.mp hb
      exact IsParent.lt_size hq)
    obtain ⟨q, hiq, hq⟩ := Relation.TransGen.tail'_iff.mp hb
    obtain rfl := Option.some.inj (hq.symm.trans hparent)
    refine ih ?_
    rcases Relation.reflTransGen_iff_eq_or_transGen.mp (hiq.trans hwithin) with heq | hb
    · omega
    · exact hb

end PreOrder

theorem mem_takeWhile_range' {f : Nat → Bool} {s n : Nat} :
    j ∈ (List.range' s n).takeWhile f ↔ s ≤ j ∧ j < s + n ∧ ∀ k, s ≤ k → k ≤ j → f k = true := by
  induction n generalizing s with
  | zero => simp; omega
  | succ n ih =>
    rw [List.range'_succ, List.takeWhile_cons]
    split
    · rename_i hs
      rw [List.mem_cons, ih]
      constructor
      · rintro (rfl | ⟨h₁, h₂, h₃⟩)
        · refine ⟨le_rfl, by omega, fun k h₁ h₂ => ?_⟩
          obtain rfl : k = j := by omega
          exact hs
        · refine ⟨by omega, by omega, fun k hk hkj => ?_⟩
          rcases Nat.eq_or_lt_of_le hk with rfl | hk
          · exact hs
          · exact h₃ k hk hkj
      · rintro ⟨h₁, h₂, h₃⟩
        rcases Nat.eq_or_lt_of_le h₁ with rfl | h₁
        · exact .inl rfl
        · exact .inr ⟨h₁, by omega, fun k hk => h₃ k (by omega)⟩
    · rename_i hs
      simp only [List.not_mem_nil, false_iff]
      rintro ⟨h₁, -, h₃⟩
      exact hs (h₃ s le_rfl h₁)

/-- In document order, what is counted as below a node is what is below it by parents. -/
theorem PreOrder.mem_descendants_iff (h : t.PreOrder) : j ∈ t.descendants i ↔ t.Below i j := by
  rw [descendants, mem_takeWhile_range']
  constructor
  · rintro ⟨hij, hj, hall⟩
    induction j using Nat.strong_induction_on with
    | _ j ih =>
      obtain ⟨j, rfl⟩ : ∃ j', j = j' + 1 := ⟨j - 1, by omega⟩
      obtain ⟨p, hp, hparent, -⟩ := h.parent j (by omega)
      have hip : i ≤ p := by
        have hj' := hall (j + 1) hij le_rfl
        rw [hparent] at hj'
        exact of_decide_eq_true hj'
      rcases Nat.eq_or_lt_of_le hip with rfl | hip
      · exact .single hparent
      · exact (ih p (by omega) hip (by omega) fun k hk hkp => hall k hk (by omega)).tail hparent
  · intro hb
    have hlt := h.lt_of_below hb
    obtain ⟨q, -, hq⟩ := Relation.TransGen.tail'_iff.mp hb
    have hj := IsParent.lt_size hq
    refine ⟨hlt, by omega, fun k hk hkj => ?_⟩
    obtain ⟨q, hiq, hq⟩ := Relation.TransGen.tail'_iff.mp (h.below_of_lt_of_le hb hk hkj)
    rw [hq]
    exact decide_eq_true (h.le_of_within hiq)

/-! ## Growth -/

@[simp]
theorem size_push : (t.push n).size = t.size + 1 :=
  Array.size_push ..

theorem parent?_push (hi : i < t.size) : (t.push n).parent? i = t.parent? i := by
  simp only [parent?, node, push, Array.getD_eq_getD_getElem?, Array.getElem?_push_lt hi,
    Array.getElem?_eq_getElem hi]

theorem parent?_push_size : (t.push n).parent? t.size = n.parent := by
  simp [parent?, node, push, size]

theorem IsParent.push (h : t.IsParent i j) : (t.push n).IsParent i j :=
  (parent?_push h.lt_size).trans h

theorem Within.push (h : t.Within i j) : (t.push n).Within i j :=
  Relation.ReflTransGen.mono (fun _ _ => IsParent.push) _ _ h

/-- The tree is in document order and the nodes, the innermost first, are open : each is the parent
of the one before it, and the first is the last node of the tree or around it. -/
structure Spine (t : Tree) (nodes : List Nat) : Prop where
  preOrder : t.PreOrder
  chain : nodes.IsChain fun i j => t.IsParent j i
  within : ∀ i ∈ nodes.head?, t.Within i (t.size - 1)

namespace Spine

variable {is : List Nat}

/-- The first node is open, as is no other. -/
theorem first (h : t.size = 0) (hn : n.parent = none) : (t.push n).Spine [0] where
  preOrder := by
    refine ⟨by simp, ?_, fun i hi => ?_⟩
    · have hparent : (t.push n).parent? t.size = n.parent := parent?_push_size
      rwa [h, hn] at hparent
    · rw [size_push, h] at hi
      omega
  chain := .singleton 0
  within := by
    rintro i ⟨⟩
    rw [size_push, h]
    exact .refl

/-- The innermost open node is closed. -/
theorem tail (h : t.Spine (i :: is)) (hne : is ≠ []) : t.Spine is where
  preOrder := h.preOrder
  chain := h.chain.tail
  within := by
    obtain ⟨j, js, rfl⟩ := List.exists_cons_of_ne_nil hne
    rintro k ⟨⟩
    exact (h.within i rfl).head (List.isChain_cons_cons.mp h.chain).1

/-- A new node under the innermost open one is open. -/
theorem push (h : t.Spine is) (hne : is ≠ []) (hn : n.parent = is.head?) :
    (t.push n).Spine (t.size :: is) := by
  obtain ⟨i, is, rfl⟩ := List.exists_cons_of_ne_nil hne
  have hpos := h.preOrder.size_pos
  have hnew : (t.push n).IsParent i t.size := by rw [IsParent, parent?_push_size, hn, List.head?_cons]
  refine ⟨⟨by simp, by rw [parent?_push hpos, h.preOrder.root], fun j hj => ?_⟩,
    .cons_cons hnew (h.chain.imp fun _ _ => IsParent.push), ?_⟩
  · rw [size_push, Nat.add_lt_add_iff_right] at hj
    obtain hlast | hj : j + 1 = t.size ∨ j + 1 < t.size := by omega
    · have hwithin : t.Within i j := by
        have hw := h.within i rfl
        rwa [← hlast] at hw
      rw [← hlast] at hnew
      exact ⟨i, h.preOrder.le_of_within hwithin, hnew, hwithin.push⟩
    · obtain ⟨p, hp, hparent, hwithin⟩ := h.preOrder.parent j hj
      exact ⟨p, hp, hparent.push, hwithin.push⟩
  · rintro j ⟨⟩
    rw [size_push]
    exact .refl

/-- A new node under the innermost open one that is closed again. -/
theorem push_closed (h : t.Spine is) (hne : is ≠ []) (hn : n.parent = is.head?) :
    (t.push n).Spine is :=
  (h.push hne hn).tail hne

/-- Only the parents of the nodes matter. -/
theorem congr (h : t.Spine is) (hsize : t'.size = t.size) (hparent : ∀ i, t'.parent? i = t.parent? i) :
    t'.Spine is := by
  have hrel : t'.IsParent = t.IsParent := by
    funext i j
    rw [IsParent, IsParent, hparent]
  have hwithin (i j : Nat) : t'.Within i j ↔ t.Within i j := by rw [Within, Within, hrel]
  refine ⟨⟨hsize ▸ h.preOrder.size_pos, (hparent 0).trans h.preOrder.root, fun i hi => ?_⟩,
    hrel ▸ h.chain, fun i hi => ?_⟩
  · rw [hrel]
    simp only [hwithin]
    exact h.preOrder.parent i (hsize ▸ hi)
  · rw [hwithin, hsize]
    exact h.within i hi

end Spine

end ArchiveLabels.Label.Tree
