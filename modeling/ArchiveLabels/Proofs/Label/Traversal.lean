import ArchiveLabels.Proofs.Label.Growth
import Mathlib.Data.List.Sort

/-!
# What the numbers of nodes say

A label knows the parents of its nodes and nothing else. That the nodes below a node are those from
its number up to another one, and that all nodes in the order of their numbers are the tree walked
depth first, rests on the order in which the nodes were added. `Tree.Numbered` says what is taken
for granted of a tree : the lists of children, as they would be noted down while the tree grows
(`Tree.childLists`), the end of what is below a node, which is come to by going to the last child
again and again (`Tree.EndsAt`), and the walk (`Tree.Traversal`). All of it holds of a tree in
document order (`Tree.PreOrder.numbered`).

An `Element` is what a reader of elements hands on, with its children inside. `Tree.numbered_ofText`
: the trees of both readers are numbered so, and so is the tree that is built of an element by going
into its children, one after the other; and each label is the tree of an element.
-/

namespace ArchiveLabels.Label

namespace Tree

variable {t : Tree} {i j c d e p : Nat} {is js : List Nat}

/-! ## Siblings -/

theorem pairwise_children (t : Tree) (i : Nat) : (t.children i).Pairwise (· < ·) :=
  List.pairwise_lt_range.filter _

theorem pairwise_descendants (t : Tree) (i : Nat) : (t.descendants i).Pairwise (· < ·) :=
  List.Pairwise.sublist (List.takeWhile_sublist _) List.pairwise_lt_range'

/-- Below a node is what is within its children. -/
theorem below_iff : t.Below i j ↔ ∃ c ∈ t.children i, t.Within c j := by
  simp only [mem_children_iff]
  exact Relation.TransGen.head'_iff

/-- Within a node are the node itself and what is within its children. -/
theorem within_iff : t.Within i j ↔ j = i ∨ ∃ c ∈ t.children i, t.Within c j := by
  rw [← below_iff]
  exact Relation.reflTransGen_iff_eq_or_transGen

namespace PreOrder

variable (h : t.PreOrder)
include h

/-- No child is below another of the same parent. -/
theorem not_below_sibling (hc : t.IsParent i c) (hd : t.IsParent i d) : ¬t.Below c d := by
  intro hb
  obtain ⟨q, hq, hparent⟩ := Relation.TransGen.tail'_iff.mp hb
  obtain rfl := Option.some.inj (hd.symm.trans hparent)
  exact (h.lt_of_isParent hc).not_ge (h.le_of_within hq)

/-- A node and all that is below it come before its next sibling. -/
theorem lt_of_siblings (hc : t.IsParent i c) (hd : t.IsParent i d) (hcd : c < d)
    (hj : t.Within c j) : j < d := by
  by_contra hdj
  rcases within_iff.mp hj with rfl | hb
  · exact hdj hcd
  · exact h.not_below_sibling hc hd (h.below_of_lt_of_le (below_iff.mpr hb) hcd (not_lt.mp hdj))

/-- All within one child comes before the next child. -/
theorem pairwise_siblings (i : Nat) :
    (t.children i).Pairwise fun c d => ∀ j, t.Within c j → j < d :=
  (pairwise_children t i).imp_of_mem fun hc hd hcd _ =>
    h.lt_of_siblings (mem_children_iff.mp hc) (mem_children_iff.mp hd) hcd

/-- Every node is within the root. -/
theorem within_root (hj : j < t.size) : t.Within 0 j := by
  induction j using Nat.strong_induction_on with
  | _ j ih =>
    cases j with
    | zero => exact .refl
    | succ j =>
      obtain ⟨p, hp, hparent, -⟩ := h.parent j hj
      exact (ih p (by omega) (by omega)).tail hparent

end PreOrder

/-! ## The walk -/

/-- The second list walks through the nodes of the first, depth first : behind each node stands a
walk through its children. -/
inductive Traversal (t : Tree) : List Nat → List Nat → Prop
  | nil : Traversal t [] []
  | cons {i : Nat} {is below rest : List Nat} (hbelow : Traversal t (t.children i) below)
    (hrest : Traversal t is rest) : Traversal t (i :: is) (i :: (below ++ rest))

namespace Traversal

/-- A walk comes to the nodes it is through and to what is below them. -/
theorem mem_iff (h : t.Traversal is js) : j ∈ js ↔ ∃ i ∈ is, t.Within i j := by
  induction h with
  | nil => simp
  | @cons i is below rest _ _ ihbelow ihrest =>
    rw [List.mem_cons, List.mem_append, ihbelow, ihrest, List.exists_mem_cons_iff, ← or_assoc,
      ← within_iff]

/-- A traversal of nodes in order is in order. -/
theorem pairwise (ht : t.PreOrder) (h : t.Traversal is js)
    (his : is.Pairwise fun i k => ∀ j, t.Within i j → j < k) : js.Pairwise (· < ·) := by
  induction h with
  | nil => exact .nil
  | @cons i is below rest hbelow hrest ihbelow ihrest =>
    obtain ⟨hi, his⟩ := List.pairwise_cons.mp his
    have hrest (j : Nat) (hj : t.Within i j) (l : Nat) (hl : l ∈ rest) : j < l := by
      obtain ⟨k, hk, hkl⟩ := hrest.mem_iff.mp hl
      exact (hi k hk j hj).trans_le (ht.le_of_within hkl)
    refine List.pairwise_cons.mpr ⟨fun j hj => ?_, List.pairwise_append.mpr
      ⟨ihbelow (ht.pairwise_siblings i), ihrest his, fun j hj l hl => ?_⟩⟩
    · rcases List.mem_append.mp hj with hj | hj
      · exact ht.lt_of_below (below_iff.mpr (hbelow.mem_iff.mp hj))
      · exact hrest i .refl j hj
    · exact hrest j (within_iff.mpr (.inr (hbelow.mem_iff.mp hj))) l hl

end Traversal

namespace PreOrder

variable (h : t.PreOrder)
include h

/-- Every node has a walk through its children, as these have greater numbers than it has. -/
theorem exists_traversal (i : Nat) : ∃ js, t.Traversal (t.children i) js := by
  have through (is : List Nat) (his : ∀ c ∈ is, ∃ js, t.Traversal (t.children c) js) :
      ∃ js, t.Traversal is js := by
    induction is with
    | nil => exact ⟨[], .nil⟩
    | cons c is ih =>
      obtain ⟨below, hbelow⟩ := his c List.mem_cons_self
      obtain ⟨rest, hrest⟩ := ih fun d hd => his d (List.mem_cons_of_mem c hd)
      exact ⟨_, .cons hbelow hrest⟩
  refine through _ fun c hc => ?_
  have hparent := mem_children_iff.mp hc
  have := h.lt_of_isParent hparent
  have := hparent.lt_size
  exact exists_traversal c
termination_by t.size - i

/-- What is counted as below a node is a walk through its children. -/
theorem traversal_descendants (i : Nat) : t.Traversal (t.children i) (t.descendants i) := by
  obtain ⟨js, hjs⟩ := h.exists_traversal i
  have heq : js = t.descendants i :=
    (hjs.pairwise h (h.pairwise_siblings i)).eq_of_mem_iff (pairwise_descendants t i) fun j => by
      rw [hjs.mem_iff, h.mem_descendants_iff, below_iff]
  exact heq ▸ hjs

/-- A traversal from the root visits every node. -/
theorem traversal_all : t.Traversal [0] t.all := by
  have hroot := Traversal.cons (h.traversal_descendants 0) .nil
  have heq : 0 :: (t.descendants 0 ++ []) = t.all := by
    refine (hroot.pairwise h (List.pairwise_singleton _ _)).eq_of_mem_iff List.pairwise_lt_range
      fun j => ?_
    rw [hroot.mem_iff, all, List.mem_range]
    refine ⟨?_, fun hj => ⟨0, List.mem_singleton_self 0, h.within_root hj⟩⟩
    rintro ⟨i, hi, hw⟩
    obtain rfl := List.mem_singleton.mp hi
    rcases within_iff.mp hw with rfl | hb
    · exact h.size_pos
    · obtain ⟨q, -, hq⟩ := Relation.TransGen.tail'_iff.mp (below_iff.mpr hb)
      exact hq.lt_size
  exact heq ▸ hroot

end PreOrder

/-! ## The end of what is below a node -/

/-- Going to the last child again and again from node `i` comes to the node before number `e`. -/
inductive EndsAt (t : Tree) : Nat → Nat → Prop
  | leaf {i : Nat} (h : t.children i = []) : EndsAt t i (i + 1)
  | last {i c e : Nat} (h : (t.children i).getLast? = some c) (hc : EndsAt t c e) : EndsAt t i e

namespace PreOrder

variable (h : t.PreOrder)
include h

/-- What is below a node ends somewhere. -/
theorem exists_endsAt (i : Nat) : ∃ e, t.EndsAt i e := by
  cases hlast : (t.children i).getLast? with
  | none => exact ⟨i + 1, .leaf (List.getLast?_eq_none_iff.mp hlast)⟩
  | some c =>
    have hparent := mem_children_iff.mp (List.mem_of_getLast? hlast)
    have := h.lt_of_isParent hparent
    have := hparent.lt_size
    obtain ⟨e, he⟩ := exists_endsAt c
    exact ⟨e, .last hlast he⟩
termination_by t.size - i

theorem lt_of_endsAt (he : t.EndsAt i e) : i < e := by
  induction he with
  | leaf => exact Nat.lt_succ_self _
  | last hlast _ ih =>
    exact (h.lt_of_isParent (mem_children_iff.mp (List.mem_of_getLast? hlast))).trans ih

/-- What is below a node stands behind it and before the end. -/
theorem below_iff_of_endsAt (he : t.EndsAt i e) : t.Below i j ↔ i < j ∧ j < e := by
  induction he with
  | leaf hleaf =>
    rw [below_iff, hleaf]
    simp only [List.not_mem_nil, false_and, exists_false, false_iff]
    omega
  | @last i c e hlast hc ih =>
    have hparent := mem_children_iff.mp (List.mem_of_getLast? hlast)
    have hce := h.lt_of_endsAt hc
    constructor
    · intro hb
      refine ⟨h.lt_of_below hb, ?_⟩
      obtain ⟨d, hd, hdj⟩ := below_iff.mp hb
      obtain ⟨front, hfront⟩ := List.getLast?_eq_some_iff.mp hlast
      have hpairwise := pairwise_children t i
      rw [hfront, List.mem_append, List.mem_singleton] at hd
      rw [hfront, List.pairwise_append] at hpairwise
      rcases hd with hd | rfl
      · have hdc := hpairwise.2.2 d hd c (List.mem_singleton_self c)
        have hparent' : t.IsParent i d :=
          mem_children_iff.mp (hfront ▸ List.mem_append_left [c] hd)
        exact (h.lt_of_siblings hparent' hparent hdc hdj).trans hce
      · rcases Relation.reflTransGen_iff_eq_or_transGen.mp hdj with rfl | hb
        · exact hce
        · exact (ih.mp hb).2
    · rintro ⟨hij, hje⟩
      rcases Nat.lt_or_ge c j with hcj | hjc
      · exact (ih.mpr ⟨hcj, hje⟩).head hparent
      · exact h.below_of_lt_of_le (.single hparent) hij hjc

/-- The nodes below one are those between it and its end. -/
theorem descendants_of_endsAt (he : t.EndsAt i e) :
    t.descendants i = List.range' (i + 1) (e - (i + 1)) := by
  have := h.lt_of_endsAt he
  refine (pairwise_descendants t i).eq_of_mem_iff
    List.pairwise_lt_range' fun j => ?_
  rw [h.mem_descendants_iff, h.below_iff_of_endsAt he, List.mem_range'_1]
  omega

end PreOrder

/-! ## Lists of children -/

/-- Notes down a node : it has no children yet, and is the last child of its parent. -/
def noteChild (lists : List (List Nat)) (n : Node) : List (List Nat) :=
  match n.parent with
  | none => lists ++ [[]]
  | some p => lists.modify p (· ++ [lists.length]) ++ [[]]

/-- The children of every node, as they are noted down while the nodes are added. -/
def childLists (t : Tree) : List (List Nat) :=
  t.nodes.toList.foldl noteChild []

/-- The numbers of the nodes in a list whose parent is node `i`. -/
def childrenIn (nodes : List Node) (i : Nat) : List Nat :=
  (List.range nodes.length).filter fun j => (nodes[j]?.bind Node.parent) == some i

/-- A node added is the last child of its parent. -/
theorem childrenIn_concat (nodes : List Node) (n : Node) (i : Nat) :
    childrenIn (nodes ++ [n]) i =
      childrenIn nodes i ++ if n.parent = some i then [nodes.length] else [] := by
  have hfront : ∀ j ∈ List.range nodes.length, (nodes ++ [n])[j]? = nodes[j]? := fun j hj =>
    List.getElem?_append_left (List.mem_range.mp hj)
  rw [childrenIn, List.length_append, List.length_singleton, List.range_succ, List.filter_append]
  congr 1
  · exact List.filter_congr fun j hj => by rw [hfront j hj]
  · by_cases hn : n.parent = some i <;> simp [hn]

/-- Nodes with parents before them are noted down with all their children. -/
theorem foldl_noteChild {nodes : List Node}
    (h : ∀ j (n : Node) p, nodes[j]? = some n → n.parent = some p → p < j) :
    nodes.foldl noteChild [] = (List.range nodes.length).map (childrenIn nodes) := by
  induction nodes using List.reverseRecOn with
  | nil => rfl
  | append_singleton nodes n ih =>
    have hnodes : ∀ j (m : Node) p, nodes[j]? = some m → m.parent = some p → p < j :=
      fun j m p hj =>
        h j m p ((List.getElem?_append_left (List.getElem?_eq_some_iff.mp hj).1).trans hj)
    have hnone : childrenIn nodes nodes.length = [] := by
      refine List.filter_eq_nil_iff.mpr fun j hj hparent => ?_
      obtain ⟨m, hm, hp⟩ := Option.bind_eq_some_iff.mp (beq_iff_eq.mp hparent)
      exact (hnodes j m _ hm hp).not_gt (List.mem_range.mp hj)
    have hself : n.parent ≠ some nodes.length := fun hp =>
      (h nodes.length n _ (by simp) hp).false
    rw [List.foldl_concat, ih hnodes, List.length_append, List.length_singleton, List.range_succ,
      List.map_append, List.map_singleton, childrenIn_concat, if_neg hself, hnone, List.append_nil]
    unfold noteChild
    cases hp : n.parent with
    | none =>
      refine congrArg (· ++ [[]]) (List.map_congr_left fun i _ => ?_)
      rw [childrenIn_concat, hp, if_neg nofun, List.append_nil]
    | some p =>
      refine congrArg (· ++ [[]]) (List.ext_getElem (by simp) fun i hi hi' => ?_)
      simp only [List.length_map, List.length_range, List.getElem_modify, List.getElem_map,
        List.getElem_range, childrenIn_concat, hp, Option.some.injEq]
      split <;> simp

/-- The lists kept while a tree is built are those read off its parents. -/
theorem PreOrder.childLists_eq (h : t.PreOrder) :
    t.childLists = (List.range t.size).map t.children := by
  have hnode {j : Nat} {n : Node} (hj : t.nodes.toList[j]? = some n) : t.node j = n := by
    rw [node, Array.getD_eq_getD_getElem?, ← Array.getElem?_toList, hj, Option.getD_some]
  refine (foldl_noteChild fun j n p hj hp => ?_).trans ?_
  · have hparent : t.IsParent p j := by rw [IsParent, parent?, hnode hj, hp]
    exact h.lt_of_isParent hparent
  · refine List.map_congr_left fun i _ => List.filter_congr fun j hj => ?_
    rw [List.getElem?_eq_getElem (List.mem_range.mp hj), Option.bind_some,
      hnode (List.getElem?_eq_getElem (List.mem_range.mp hj))]

/-! ## Numbered trees -/

/-- The numbers of the nodes of a tree say what is below what.

The root alone has no parent, and other nodes have a parent of a smaller number. The children of a
node, noted down while the nodes are added or not, ascend and are those that have it for a parent.
The nodes below a node are those behind it and before the end that its last children lead to; they
are counted off in ascending order, and this is the walk through its children. All nodes in
ascending order are the walk from the root. -/
structure Numbered (t : Tree) : Prop where
  root_iff : ∀ i < t.size, t.parent? i = none ↔ i = 0
  lt_of_isParent : ∀ i j, t.IsParent i j → i < j ∧ j < t.size
  childLists_eq : t.childLists = (List.range t.size).map t.children
  ascending_children : ∀ i, (t.children i).Pairwise (· < ·)
  mem_children_iff : ∀ i j, j ∈ t.children i ↔ t.IsParent i j
  below_iff : ∀ i, ∃ e, t.EndsAt i e ∧ (∀ j, t.Below i j ↔ i < j ∧ j < e) ∧
    t.descendants i = List.range' (i + 1) (e - (i + 1))
  mem_descendants_iff : ∀ i j, j ∈ t.descendants i ↔ t.Below i j
  ascending_descendants : ∀ i, (t.descendants i).Pairwise (· < ·)
  traversal_descendants : ∀ i, t.Traversal (t.children i) (t.descendants i)
  traversal_all : t.Traversal [0] t.all

/-- The nodes of a tree in document order are numbered so. -/
theorem PreOrder.numbered (h : t.PreOrder) : t.Numbered where
  root_iff _ := h.parent?_eq_none_iff
  lt_of_isParent _ _ hp := ⟨h.lt_of_isParent hp, hp.lt_size⟩
  childLists_eq := h.childLists_eq
  ascending_children := pairwise_children t
  mem_children_iff _ _ := Tree.mem_children_iff
  below_iff i := by
    obtain ⟨e, he⟩ := h.exists_endsAt i
    exact ⟨e, he, fun _ => h.below_iff_of_endsAt he, h.descendants_of_endsAt he⟩
  mem_descendants_iff _ _ := h.mem_descendants_iff
  ascending_descendants := pairwise_descendants t
  traversal_descendants := h.traversal_descendants
  traversal_all := h.traversal_all

end Tree

/-! ## Elements -/

/-- A node with those below it inside. What parent the node has does not count. -/
inductive Element where
  | mk (node : Node) (below : List Element)

namespace Element

mutual

/-- Adds a node under the one of the given number, and behind it what is inside. -/
def addTo (t : Tree) (parent : Option Nat) : Element → Tree
  | mk node below => addAllTo (t.push { node with parent }) (some t.size) below

/-- Adds nodes under the one of the given number, each with what is inside. -/
def addAllTo (t : Tree) (parent : Option Nat) : List Element → Tree
  | [] => t
  | e :: es => addAllTo (e.addTo t parent) parent es

end

/-- The tree of an element. -/
def tree (d : Dialect) (e : Element) : Tree :=
  e.addTo ⟨d, #[]⟩ none

mutual

theorem spine_addTo {t : Tree} {is : List Nat} (h : t.Spine is) (hne : is ≠ []) :
    ∀ e : Element, (e.addTo t is.head?).Spine is
  | mk node below => by
    rw [addTo]
    exact (spine_addAllTo (h.push hne rfl) (List.cons_ne_nil _ _) below).tail hne

/-- The nodes that are open stay open. -/
theorem spine_addAllTo {t : Tree} {is : List Nat} (h : t.Spine is) (hne : is ≠ []) :
    ∀ es : List Element, (addAllTo t is.head? es).Spine is
  | [] => by
    rw [addAllTo]
    exact h
  | e :: es => by
    rw [addAllTo]
    exact spine_addAllTo (spine_addTo h hne e) hne es

end

/-- The tree of an element is in document order. -/
theorem preOrder_tree (d : Dialect) : ∀ e : Element, (e.tree d).PreOrder
  | mk node below => by
    have hfirst : ((⟨d, #[]⟩ : Tree).push { node with parent := none }).Spine [0] :=
      .first rfl rfl
    rw [tree, addTo]
    exact (spine_addAllTo hfirst (List.cons_ne_nil _ _) below).preOrder

end Element

namespace Tree

variable {t : Tree} {is js : List Nat} {k : Nat} {parent : Option Nat}

/-- The tree of the nodes before number `k`. -/
def upTo (t : Tree) (k : Nat) : Tree :=
  ⟨t.dialect, (t.nodes.toList.take k).toArray⟩

theorem size_upTo (hk : k ≤ t.size) : (t.upTo k).size = k := by
  simpa [upTo, size] using hk

theorem push_upTo (hk : k < t.size) : (t.upTo k).push (t.node k) = t.upTo (k + 1) := by
  have hnode : t.nodes.toList[k]? = some (t.node k) := by
    rw [node, Array.getD_eq_getD_getElem?, Array.getElem?_toList, Array.getElem?_eq_getElem hk,
      Option.getD_some]
  rw [upTo, upTo, push, List.take_add_one, hnode]
  simp

theorem upTo_size (t : Tree) : t.upTo t.size = t := by
  rw [upTo, List.take_of_length_le (by simp [size]), Array.toArray_toList]

/-- Nodes that are walked through in the order of their numbers are those of elements. -/
theorem Traversal.exists_elements (h : t.Traversal is js) (hjs : js = List.range' k js.length)
    (hk : k + js.length ≤ t.size) (hparent : ∀ i ∈ is, t.parent? i = parent) :
    ∃ es : List Element, es.length = is.length ∧
      Element.addAllTo (t.upTo k) parent es = t.upTo (k + js.length) := by
  -- The tree grows from `upTo k` by the first node, then by what is below it, then by the rest.
  induction h generalizing k parent with
  | nil => exact ⟨[], rfl, by rw [Element.addAllTo]; rfl⟩
  | @cons i is below rest _ _ ihbelow ihrest =>
    have hlength : (i :: (below ++ rest)).length = 1 + below.length + rest.length := by
      simp only [List.length_cons, List.length_append]
      omega
    rw [hlength] at hjs hk ⊢
    rw [Nat.add_assoc, Nat.add_comm 1, List.range'_succ, ← List.range'_append_1] at hjs
    obtain ⟨rfl, hjs⟩ := List.cons.inj hjs
    obtain ⟨hbelow, hrest⟩ := List.append_inj hjs (by simp)
    have hchildren : ∀ c ∈ t.children i, t.parent? c = some i := fun c hc => mem_children_iff.mp hc
    obtain ⟨es, -, hes⟩ := ihbelow hbelow (by omega) hchildren
    obtain ⟨fs, hfs, hrest⟩ := ihrest hrest (by omega) fun c hc =>
      hparent c (List.mem_cons_of_mem i hc)
    refine ⟨⟨t.node i, es⟩ :: fs, congrArg (· + 1) hfs, ?_⟩
    have hnode : { t.node i with parent } = t.node i := by
      rw [← hparent i List.mem_cons_self]
      rfl
    rw [Element.addAllTo, Element.addTo, hnode, push_upTo (by omega), size_upTo (by omega), hes,
      hrest]
    congr 1
    omega

/-- A tree in document order is the tree of an element. -/
theorem PreOrder.exists_element (h : t.PreOrder) : ∃ e : Element, e.tree t.dialect = t := by
  have hlength : t.all.length = t.size := List.length_range
  have hnumbers : t.all = List.range' 0 t.all.length := by rw [hlength, all, List.range_eq_range']
  have hroot : ∀ i ∈ [0], t.parent? i = none := fun i hi => List.mem_singleton.mp hi ▸ h.root
  obtain ⟨es, hes, htree⟩ := h.traversal_all.exists_elements hnumbers (by omega) hroot
  obtain ⟨e, rfl⟩ := List.length_eq_one_iff.mp hes
  refine ⟨e, ?_⟩
  rw [Element.addAllTo, Element.addAllTo, hlength, Nat.zero_add, upTo_size] at htree
  exact htree

/-- **Both readers number the nodes in document order.** So do the readers of legacy and of modern
labels, whatever the text, and so does whoever adds the nodes of an element and of what is inside,
one after the other; and no reader makes a tree that is not the tree of an element. -/
theorem numbered_ofText :
    (∀ d text t, Tree.ofText d text = .ok t →
      t.Numbered ∧ ∃ e : Element, e.tree t.dialect = t) ∧
    ∀ (d : Dialect) (e : Element), (e.tree d).Numbered :=
  ⟨fun _ _ _ ht => ⟨(preOrder_of_ofText ht).numbered, (preOrder_of_ofText ht).exists_element⟩,
    fun d e => (e.preOrder_tree d).numbered⟩

/-- A label with a block in a block, and a value behind the two. -/
def nestedLabel : String :=
  "OBJECT = A\nGROUP = B\nC = 1\nEND_GROUP\nEND_OBJECT\nD = 2\nEND\n"

set_option maxRecDepth 100000 in
/-- The value behind the blocks is a child of the root like the outer block. -/
theorem numbered_ofText_nested : ∃ t : Tree, Tree.ofText .legacy nestedLabel = .ok t ∧
    t.Numbered ∧ t.all = [0, 1, 2, 3, 4] ∧ t.descendants 1 = [2, 3] ∧
      t.childLists = [[1, 4], [2], [3], [], []] := by
  have hread : (Tree.ofText .legacy nestedLabel).toOption.map
      (fun t => (t.all, t.descendants 1, t.childLists)) =
        some ([0, 1, 2, 3, 4], [2, 3], [[1, 4], [2], [3], [], []]) := by
    decide +kernel
  cases ht : Tree.ofText .legacy nestedLabel with
  | error e =>
    rw [ht] at hread
    cases hread
  | ok t =>
    rw [ht] at hread
    simp only [Except.toOption, Option.map_some, Option.some.injEq, Prod.mk.injEq] at hread
    obtain ⟨hall, hdescendants, hlists⟩ := hread
    exact ⟨t, rfl, (numbered_ofText.1 .legacy nestedLabel t ht).1, hall, hdescendants, hlists⟩

end Tree

end ArchiveLabels.Label
