import ArchiveLabels.Proofs.Label.Growth
import ArchiveLabels.Proofs.Selector.Pattern
import ArchiveLabels.Selector.Select
import Mathlib

/-!
# What a selector picks, step by step

The steps of a branch are walked by all places at once, in lists that are put into order and cleared
of repetitions behind every step, and the nodes below a node are counted off by their numbers. What
is meant is a way of a single place : `Branch.Leads`, told by parents alone. In the tree of a label
the two come to the same (`Selector.select_iff_leads`).
-/

namespace ArchiveLabels

open Label

variable {t : Tree} {p q : Place} {ps : List Place} {i j : Nat}

/-! ## The ways of a branch -/

/-- The node is in the namespace, if one is given, and its name fits the pattern. -/
def NameTest.Admits (n : NameTest) (node : Node) : Prop :=
  (∀ space, n.space = some space → node.space = some space) ∧
    Selector.Fits n.pattern.toList node.name.toList

/-- A child of the node has the name and the value. -/
def ChildTest.Holds (c : ChildTest) (t : Tree) (i : Nat) : Prop :=
  ∃ j, t.IsParent i j ∧ t.name j = c.child ∧ t.value j = c.value

/-- An axis leads from a place to a node. -/
inductive Axis.Leads (t : Tree) : Axis → Place → Nat → Prop
  /-- The root is the child of the document. -/
  | root : Leads t .child .document 0
  /-- All nodes are below the document. -/
  | any {i : Nat} (h : i < t.size) : Leads t .descendant .document i
  | child {i j : Nat} (h : t.IsParent i j) : Leads t .child (.node i) j
  | below {i j : Nat} (h : t.Below i j) : Leads t .descendant (.node i) j

/-- A step leads from a place to a place. -/
inductive Step.Leads (t : Tree) : Step → Place → Place → Prop
  | here (p : Place) : Leads t .here p p
  /-- The document is around the root, and nothing is around the document. -/
  | root : Leads t .up (.node 0) .document
  | up {i j : Nat} (h : t.IsParent i j) : Leads t .up (.node j) (.node i)
  | down {axis : Axis} {name : NameTest} {test : Option ChildTest} {p : Place} {i : Nat}
    (haxis : axis.Leads t p i) (hname : name.Admits (t.node i))
    (htest : ∀ c, test = some c → c.Holds t i) : Leads t (.down axis name test) p (.node i)

/-- Steps lead from a place to a place, each from where the one before it leads to. -/
inductive Branch.StepsLead (t : Tree) : List Step → Place → Place → Prop
  | nil (p : Place) : StepsLead t [] p p
  | cons {s : Step} {ss : List Step} {p q r : Place} (h : s.Leads t p q)
    (hs : StepsLead t ss q r) : StepsLead t (s :: ss) p r

/-- Where a branch starts : at the document if it is absolute, else at the context. -/
def Branch.start (b : Branch) (context : Nat) : Place :=
  if b.absolute then .document else .node context

/-- The branch leads from its start to the node. -/
def Branch.Leads (b : Branch) (t : Tree) (context i : Nat) : Prop :=
  StepsLead t b.steps (b.start context) (.node i)

/-! ## Places in order -/

theorem eraseReps_loop {α : Type} [BEq α] (a : α) (as bs : List α) :
    List.eraseRepsBy.loop (· == ·) a as bs =
      bs.reverse ++ List.eraseRepsBy.loop (· == ·) a as [] := by
  induction as generalizing a bs with
  | nil => simp [List.eraseRepsBy.loop]
  | cons b as ih =>
    rw [List.eraseRepsBy.loop, List.eraseRepsBy.loop]
    split
    · exact ih a bs
    · rw [ih b (a :: bs), ih b [a]]
      simp

theorem eraseReps_cons_cons {α : Type} [DecidableEq α] (a b : α) (as : List α) :
    (a :: b :: as).eraseReps = if a = b then (b :: as).eraseReps else a :: (b :: as).eraseReps := by
  simp only [List.eraseReps, List.eraseRepsBy]
  rw [List.eraseRepsBy.loop]
  split
  · rename_i h
    obtain rfl := eq_of_beq h
    rw [if_pos rfl]
  · rename_i h
    rw [if_neg (beq_eq_false_iff_ne.mp h), eraseReps_loop]
    rfl

theorem mem_eraseReps {α : Type} [DecidableEq α] {a : α} {as : List α} :
    a ∈ as.eraseReps ↔ a ∈ as := by
  induction as with
  | nil => rfl
  | cons b as ih =>
    rcases as with _ | ⟨c, as⟩
    · rfl
    · rw [eraseReps_cons_cons]
      split
      · rename_i h
        rw [ih, h, List.mem_cons, List.mem_cons (b := c)]
        simp
      · rw [List.mem_cons, ih, ← List.mem_cons]

namespace Place

theorem rank_inj (h : p.rank = q.rank) : p = q := by
  cases p <;> cases q <;> simp_all [rank]

theorem pairwise_eraseReps (h : ps.Pairwise fun p q => p.rank ≤ q.rank) :
    ps.eraseReps.Pairwise fun p q => p.rank < q.rank := by
  induction ps with
  | nil => exact .nil
  | cons p ps ih =>
    obtain ⟨hp, hps⟩ := List.pairwise_cons.mp h
    rcases ps with _ | ⟨q, ps⟩
    · exact .cons (fun q hq => nomatch hq) .nil
    · rw [eraseReps_cons_cons]
      split
      · exact ih hps
      · rename_i hne
        refine .cons (fun r hr => ?_) (ih hps)
        have hpq : p.rank < q.rank :=
          Nat.lt_of_le_of_ne (hp q List.mem_cons_self) fun he => hne (rank_inj he)
        rcases List.mem_cons.mp (mem_eraseReps.mp hr) with rfl | hr
        · exact hpq
        · exact Nat.lt_of_lt_of_le hpq (List.rel_of_pairwise_cons hps hr)

theorem mem_inOrder : p ∈ inOrder ps ↔ p ∈ ps := by
  rw [inOrder, mem_eraseReps, List.mem_mergeSort]

/-- Places in order ascend strictly, so that none stands twice. -/
theorem pairwise_inOrder (ps : List Place) :
    (inOrder ps).Pairwise fun p q => p.rank < q.rank := by
  refine pairwise_eraseReps ((List.pairwise_mergeSort ?_ ?_ ps).imp of_decide_eq_true)
  · intro p q r hpq hqr
    exact decide_eq_true (Nat.le_trans (of_decide_eq_true hpq) (of_decide_eq_true hqr))
  · intro p q
    rw [Bool.or_eq_true, decide_eq_true_eq, decide_eq_true_eq]
    exact Nat.le_total ..

/-- The place is in the tree. -/
def InTree (t : Tree) : Place → Prop
  | document => True
  | node i => i < t.size

end Place

/-! ## Tests and steps -/

/-- The name test accepts the nodes it admits. -/
theorem NameTest.accepts_iff {n : NameTest} {node : Node} :
    n.accepts node = true ↔ n.Admits node := by
  rw [accepts, Bool.and_eq_true, Selector.matchesName_iff, Bool.or_eq_true, Admits]
  refine and_congr_left' ?_
  cases n.space with
  | none => simp
  | some space => simp

/-- The child test accepts the nodes that have the child. -/
theorem ChildTest.accepts_iff {c : ChildTest} : c.accepts t i = true ↔ c.Holds t i := by
  simp only [accepts, List.any_eq_true, Tree.mem_children_iff, Bool.and_eq_true, beq_iff_eq, Holds]

section PreOrder

variable (h : t.PreOrder)
include h

theorem Axis.Leads.lt_size {axis : Axis} (ha : axis.Leads t p i) : i < t.size := by
  cases ha with
  | root => exact h.size_pos
  | any hi => exact hi
  | child hi => exact hi.lt_size
  | below hi =>
    obtain ⟨_, -, hi⟩ := Relation.TransGen.tail'_iff.mp hi
    exact Tree.IsParent.lt_size hi

/-- The nodes listed below a place are those its axis leads to. -/
theorem Place.mem_below_iff {axis : Axis} : i ∈ p.below t axis ↔ axis.Leads t p i := by
  constructor
  · intro hi
    cases p with
    | document =>
      cases axis with
      | child =>
        obtain rfl := List.mem_singleton.mp hi
        exact .root
      | descendant => exact .any (List.mem_range.mp hi)
    | node j =>
      cases axis with
      | child => exact .child (Tree.mem_children_iff.mp hi)
      | descendant => exact .below (h.mem_descendants_iff.mp hi)
  · rintro (_ | hi | hi | hi)
    · exact List.mem_singleton_self 0
    · exact List.mem_range.mpr hi
    · exact Tree.mem_children_iff.mpr hi
    · exact h.mem_descendants_iff.mpr hi

theorem Place.mem_around_iff (hp : p.InTree t) : q ∈ p.around t ↔ Step.up.Leads t p q := by
  cases p with
  | document =>
    simp only [around, List.not_mem_nil, false_iff]
    rintro ⟨⟩
  | node i =>
    cases hparent : t.parent? i with
    | some j =>
      simp only [around, hparent, List.mem_singleton]
      constructor
      · rintro rfl
        exact .up hparent
      · rintro (_ | _ | hk)
        · rw [h.root] at hparent
          cases hparent
        · rw [Option.some.inj (hparent.symm.trans hk)]
    | none =>
      simp only [around, hparent, List.mem_singleton]
      obtain rfl := (h.parent?_eq_none_iff hp).mp hparent
      constructor
      · rintro rfl
        exact .root
      · rintro (_ | _ | hk)
        · rfl
        · rw [Tree.IsParent, h.root] at hk
          cases hk

/-- A step lists the places it leads to, within the tree. -/
theorem Step.mem_apply_iff {s : Step} (hp : p.InTree t) : q ∈ s.apply t p ↔ s.Leads t p q := by
  cases s with
  | here =>
    rw [apply, List.mem_singleton]
    constructor
    · rintro rfl
      exact .here q
    · rintro ⟨⟩
      rfl
  | up => exact Place.mem_around_iff h hp
  | down axis name test =>
    rw [apply]
    simp only [List.mem_map, List.mem_filter, Place.mem_below_iff h, Bool.and_eq_true,
      NameTest.accepts_iff, Option.all_eq_true, ChildTest.accepts_iff]
    constructor
    · rintro ⟨i, ⟨haxis, hname, htest⟩, rfl⟩
      exact .down haxis hname htest
    · rintro (_ | _ | _ | ⟨haxis, hname, htest⟩)
      exact ⟨_, ⟨haxis, hname, htest⟩, rfl⟩

/-- No step leads out of the tree. -/
theorem Step.inTree_of_leads {s : Step} (hp : p.InTree t) (hs : s.Leads t p q) : q.InTree t := by
  cases hs with
  | here => exact hp
  | root => trivial
  | up hij => exact (h.lt_of_isParent hij).trans hp
  | down haxis => exact haxis.lt_size h

/-! ## Branches -/

namespace Branch

theorem inTree_of_stepsLead {ss : List Step} (hp : p.InTree t) (hs : StepsLead t ss p q) :
    q.InTree t := by
  induction hs with
  | nil => exact hp
  | cons hstep _ ih => exact ih (Step.inTree_of_leads h hp hstep)

/-- All places at once get where single places get. -/
theorem mem_foldl_iff {ss : List Step} (hps : ∀ p ∈ ps, p.InTree t) :
    q ∈ ss.foldl (fun ps s => Place.inOrder (ps.flatMap fun p => s.apply t p)) ps ↔
      ∃ p ∈ ps, StepsLead t ss p q := by
  induction ss generalizing ps with
  | nil =>
    constructor
    · intro hq
      exact ⟨q, hq, .nil q⟩
    · rintro ⟨_, hq, ⟨⟩⟩
      exact hq
  | cons s ss ih =>
    have hnext : ∀ q, q ∈ Place.inOrder (ps.flatMap fun p => s.apply t p) ↔
        ∃ p ∈ ps, s.Leads t p q := by
      intro q
      rw [Place.mem_inOrder, List.mem_flatMap]
      exact exists_congr fun p => and_congr_right fun hp => Step.mem_apply_iff h (hps p hp)
    rw [List.foldl_cons, ih fun q hq => ?_]
    · constructor
      · rintro ⟨r, hr, hss⟩
        obtain ⟨p, hp, hs⟩ := (hnext r).mp hr
        exact ⟨p, hp, .cons hs hss⟩
      · rintro ⟨p, hp, _ | ⟨hs, hss⟩⟩
        exact ⟨_, (hnext _).mpr ⟨p, hp, hs⟩, hss⟩
    · obtain ⟨p, hp, hs⟩ := (hnext q).mp hq
      exact Step.inTree_of_leads h (hps p hp) hs

omit h in
theorem inTree_start (b : Branch) (hi : i < t.size) : (b.start i).InTree t := by
  unfold start
  split
  · trivial
  · exact hi

/-- A branch evaluates to the places its steps lead to, taken one after the other. -/
theorem mem_evaluate_iff {b : Branch} (hi : i < t.size) :
    q ∈ b.evaluate t i ↔ StepsLead t b.steps (b.start i) q := by
  rw [evaluate, mem_foldl_iff h fun p hp => ?_]
  · simp [start]
  · rw [List.mem_singleton.mp hp]
    exact b.inTree_start hi

end Branch

end PreOrder

/-! ## Selectors -/

namespace Selector

variable {s : Selector} {context : Nat}

/-- The selection is in document order, each node once. -/
theorem pairwise_select (s : Selector) (t : Tree) (context : Nat) :
    (s.select t context).Pairwise (· < ·) := by
  refine List.pairwise_filterMap.mpr ((Place.pairwise_inOrder _).imp fun {p q} hrank i hi j hj => ?_)
  cases p <;> cases q <;> simp_all [Place.node?, Place.rank]

/-- A node is selected when a branch of the selector leads to it. -/
theorem mem_select_iff (h : t.PreOrder) (hc : context < t.size) :
    i ∈ s.select t context ↔ ∃ b ∈ s.branches, b.Leads t context i := by
  have hnode (p : Place) : p.node? = some i ↔ p = .node i := by
    cases p <;> simp [Place.node?]
  simp only [select, List.mem_filterMap, hnode, exists_eq_right, Place.mem_inOrder,
    List.mem_flatMap, Branch.mem_evaluate_iff h hc]
  rfl

theorem lt_size_of_mem_select (h : t.PreOrder) (hc : context < t.size)
    (hi : i ∈ s.select t context) : i < t.size := by
  obtain ⟨b, -, hb⟩ := (mem_select_iff h hc).mp hi
  exact Branch.inTree_of_stepsLead h (b.inTree_start hc) hb

/-- In the tree of a label, a selector picks the nodes that one of its branches leads to, in document
order and each once. -/
theorem select_iff_leads {d : Dialect} {text : String} (ht : Tree.ofText d text = .ok t)
    (s : Selector) (hc : context < t.size) :
    (s.select t context).Pairwise (· < ·) ∧ (∀ i ∈ s.select t context, i < t.size) ∧
      ∀ i, i ∈ s.select t context ↔ ∃ b ∈ s.branches, b.Leads t context i := by
  have h := Tree.preOrder_of_ofText ht
  exact ⟨s.pairwise_select t context, fun _ => lt_size_of_mem_select h hc,
    fun _ => mem_select_iff h hc⟩

/-- A label of two blocks of one name. -/
def twinLabel : String :=
  "OBJECT = A\n  X = 1\nEND_OBJECT = A\nOBJECT = A\n  X = 2\nEND_OBJECT = A\nEND\n"

/-- The nodes of that label. -/
def twinTree : Tree where
  dialect := .legacy
  nodes := #[⟨"LABEL", none, [], none, ⟨1, 1⟩, none⟩,
    ⟨"A", none, [("kind", "OBJECT")], none, ⟨1, 1⟩, some 0⟩,
    ⟨"X", none, [], some "1", ⟨2, 3⟩, some 1⟩,
    ⟨"A", none, [("kind", "OBJECT")], none, ⟨4, 1⟩, some 0⟩,
    ⟨"X", none, [], some "2", ⟨5, 3⟩, some 3⟩]

/-- The values in blocks that hold a 2, and what is around the context. -/
def twinSelector : Selector where
  source := "//A[X='2']/X | .."
  branches := [
    ⟨true, [.down .descendant ⟨none, "A"⟩ (some ⟨"X", "2"⟩), .down .child ⟨none, "X"⟩ none]⟩,
    ⟨false, [.up]⟩]

/-- From the first block the root is picked, which only the second branch leads to, and then the
value in the second block, which the first branch leads to. -/
theorem select_iff_leads_twins : Tree.ofText .legacy twinLabel = .ok twinTree ∧ 1 < twinTree.size ∧
    twinSelector.select twinTree 1 = [0, 4] ∧
    ∃ b ∈ twinSelector.branches, b.Leads twinTree 1 4 := by
  have hread : Tree.ofText .legacy twinLabel = .ok twinTree := by
    have hsome : (Tree.ofText .legacy twinLabel).toOption = some twinTree := by decide +kernel
    cases ht : Tree.ofText .legacy twinLabel with
    | error e => simp [ht, Except.toOption] at hsome
    | ok t => simp_all [Except.toOption]
  have hc : 1 < twinTree.size := by decide
  have hselect : twinSelector.select twinTree 1 = [0, 4] := by cbv
  obtain ⟨-, -, hleads⟩ := select_iff_leads hread twinSelector hc
  exact ⟨hread, hc, hselect, (hleads 4).mp (by simp [hselect])⟩

end Selector

end ArchiveLabels
