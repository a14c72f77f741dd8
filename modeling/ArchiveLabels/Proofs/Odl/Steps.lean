import ArchiveLabels.Odl.Nesting
import Mathlib.Tactic.SplitIfs

/-!
# What one statement does to the tree

A statement is plain, opens a block or closes one (`Statement.Plain`, `Statement.Opens`,
`Statement.Closes`), and has the nodes `Statement.nodes`. Putting it into the tree adds these nodes
behind all others and pushes or pops an open block (`Nesting.add_plain`, `Nesting.add_opens`,
`Nesting.add_closes`); nothing else can happen (`Nesting.add_cases`).
-/

namespace ArchiveLabels.Odl

open Text Label

variable {s : Statement} {kind : BlockKind} {name : String}

/-! ## Openings and closings -/

theorem role_opening (kind : BlockKind) : role kind.opening = .opens kind := by
  cases kind <;> rfl

theorem role_closing (kind : BlockKind) : role kind.closing = .closes kind := by
  cases kind <;> rfl

theorem eq_opening_of_role {keyword : String} (h : role keyword = .opens kind) :
    keyword = kind.opening := by
  unfold role at h
  split_ifs at h <;> cases h <;> assumption

theorem eq_closing_of_role {keyword : String} (h : role keyword = .closes kind) :
    keyword = kind.closing := by
  unfold role at h
  split_ifs at h <;> cases h <;> assumption

/-- A keyword is plain when it opens and closes no kind of block. -/
theorem role_eq_plain_iff {keyword : String} :
    role keyword = .plain ↔
      ∀ kind : BlockKind, keyword ≠ kind.opening ∧ keyword ≠ kind.closing := by
  constructor
  · refine fun h kind => ⟨?_, ?_⟩ <;> rintro rfl
    · cases h.symm.trans (role_opening kind)
    · cases h.symm.trans (role_closing kind)
  · intro h
    cases hr : role keyword with
    | plain => rfl
    | opens kind => exact absurd (eq_opening_of_role hr) (h kind).1
    | closes kind => exact absurd (eq_closing_of_role hr) (h kind).2

namespace Statement

/-- The statement opens a block of the given kind and name. -/
def Opens (s : Statement) (kind : BlockKind) (name : String) : Prop :=
  s.keyword = kind.opening ∧ ∃ unit, s.value = some (.scalar ⟨name, unit⟩)

/-- The statement can close a block of the given kind and name : it gives that name or none. -/
def Closes (s : Statement) (kind : BlockKind) (name : String) : Prop :=
  s.keyword = kind.closing ∧ (s.value = none ∨ ∃ unit, s.value = some (.scalar ⟨name, unit⟩))

/-- The statement has a value and neither opens nor closes a block. -/
def Plain (s : Statement) : Prop :=
  (∀ kind : BlockKind, s.keyword ≠ kind.opening ∧ s.keyword ≠ kind.closing) ∧ s.value ≠ none

/-! ## Nodes -/

/-- The node of a single value or of a member of a set, under the node `parent`. -/
def valueNode (s : Statement) (parent : Nat) (v : Scalar) : Node where
  name := s.keyword
  space := none
  attributes := v.unit.toList.map fun u => ("unit", u)
  text := some v.text
  pos := s.pos
  parent := some parent

/-- The node of a block, under the node `parent`. -/
def blockNode (s : Statement) (kind : BlockKind) (name : String) (parent : Nat) : Node where
  name := name
  space := none
  attributes := [("kind", kind.opening)]
  text := none
  pos := s.pos
  parent := some parent

/-- The nodes of a statement : one for a value or for the block it opens, one for each member of a
set, and none for a closing. -/
def nodes (s : Statement) (parent : Nat) : List Node :=
  match role s.keyword, s.value with
  | .opens kind, some (.scalar name) => [s.blockNode kind name.text parent]
  | .plain, some (.scalar v) => [s.valueNode parent v]
  | .plain, some (.set vs) => vs.map (s.valueNode parent)
  | _, _ => []

/-- How many nodes a statement has. -/
def size (s : Statement) : Nat :=
  (s.nodes 0).length

theorem length_nodes (s : Statement) (parent : Nat) : (s.nodes parent).length = s.size := by
  unfold size nodes
  split <;> simp

theorem nodes_of_opens (h : s.Opens kind name) (parent : Nat) :
    s.nodes parent = [s.blockNode kind name parent] := by
  obtain ⟨hk, unit, hv⟩ := h
  rw [nodes, hk, role_opening, hv]

theorem nodes_of_closes (h : s.Closes kind name) (parent : Nat) : s.nodes parent = [] := by
  obtain ⟨hk, hv | ⟨unit, hv⟩⟩ := h <;> rw [nodes, hk, role_closing, hv]

end Statement

/-! ## Putting nodes into the tree -/

namespace Nesting

/-- The tree with further nodes, and the same open blocks. -/
def withNodes (n : Nesting) (ns : List Node) : Nesting where
  tree := { n.tree with nodes := n.tree.nodes ++ ns.toArray }
  blocks := n.blocks

variable {n m : Nesting}

@[simp]
theorem withNodes_nil (n : Nesting) : n.withNodes [] = n := by
  simp [withNodes]

@[simp]
theorem withNodes_withNodes (n : Nesting) (as bs : List Node) :
    (n.withNodes as).withNodes bs = n.withNodes (as ++ bs) := by
  simp [withNodes]

theorem withNodes_singleton (n : Nesting) (x : Node) :
    n.withNodes [x] = { n with tree := n.tree.push x } := by
  simp [withNodes, Tree.push]

/-- Nodes added inside a block leave the open blocks, and so the parent, as they are. -/
@[simp]
theorem parent_withNodes (n : Nesting) (ns : List Node) : (n.withNodes ns).parent = n.parent :=
  rfl

@[simp]
theorem size_withNodes (n : Nesting) (ns : List Node) :
    (n.withNodes ns).tree.size = n.tree.size + ns.length := by
  simp [withNodes, Tree.size]

theorem addAll_cons {s : Statement} (h : n.add s = .ok m) (ss : List Statement) :
    n.addAll (s :: ss) = m.addAll ss := by
  rw [addAll, h]

theorem addAll_append {as : List Statement} (h : n.addAll as = .ok m) (bs : List Statement) :
    n.addAll (as ++ bs) = m.addAll bs := by
  induction as generalizing n with
  | nil =>
    cases h
    rfl
  | cons s as ih =>
    cases hs : n.add s with
    | error e =>
      rw [addAll, hs] at h
      cases h
    | ok m' =>
      rw [addAll_cons hs] at h
      rw [List.cons_append, addAll_cons hs, ih h]

/-! ## Putting a statement into the tree -/

/-- The innermost block is closed by a line of its kind that names it or names none. -/
theorem closeBlock_eq_ok {b : OpenBlock} {bs : List OpenBlock} {given : Option String} {line : Nat}
    (hblocks : n.blocks = b :: bs) (hgiven : ∀ g ∈ given, g = b.name) :
    n.closeBlock b.kind given line = .ok ⟨n.tree, bs⟩ := by
  cases given with
  | none => simp [closeBlock, hblocks]
  | some g => simp [closeBlock, hblocks, hgiven g rfl]

/-- What a closed block was : the innermost one, of the kind asked for, named as given. -/
theorem exists_of_closeBlock {given : Option String} {line : Nat}
    (h : n.closeBlock kind given line = .ok m) :
    ∃ b bs, n.blocks = b :: bs ∧ b.kind = kind ∧ (∀ g ∈ given, g = b.name) ∧ m = ⟨n.tree, bs⟩ := by
  obtain ⟨tree, _ | ⟨b, bs⟩⟩ := n
  · cases h
  · simp only [closeBlock, ne_eq, ite_not] at h
    split at h
    · rename_i hkind
      refine ⟨b, bs, rfl, hkind, ?_⟩
      cases given with
      | none =>
        cases h
        exact ⟨fun _ hg => (Option.not_mem_none _ hg).elim, rfl⟩
      | some given =>
        simp only at h
        split at h
        · rename_i hgiven
          cases h
          exact ⟨fun g hg => by cases hg; exact hgiven, rfl⟩
        · cases h
    · cases h

theorem addScalar_eq (n : Nesting) (s : Statement) (v : Scalar) :
    n.addScalar s.keyword s.pos v = n.withNodes [s.valueNode n.parent v] := by
  rw [withNodes_singleton]
  rfl

/-- The scalars of a value become nodes in their order, all under the one parent. -/
theorem foldl_addScalar_eq (n : Nesting) (s : Statement) (vs : List Scalar) :
    vs.foldl (fun n v => n.addScalar s.keyword s.pos v) n =
      n.withNodes (vs.map (s.valueNode n.parent)) := by
  induction vs generalizing n with
  | nil => rw [List.map_nil, withNodes_nil]; rfl
  | cons v vs ih =>
    rw [List.foldl_cons, addScalar_eq, ih, withNodes_withNodes]
    rfl

/-- A plain statement adds its nodes and opens or closes nothing. -/
theorem add_plain (n : Nesting) (h : s.Plain) :
    n.add s = .ok (n.withNodes (s.nodes n.parent)) := by
  obtain ⟨hk, hv⟩ := h
  have hrole := role_eq_plain_iff.mpr hk
  cases hvalue : s.value with
  | none => exact absurd hvalue hv
  | some v =>
    cases v with
    | scalar v => simp only [add, hrole, hvalue, Statement.nodes, addScalar_eq]
    | set vs => simp only [add, hrole, hvalue, Statement.nodes, foldl_addScalar_eq]

/-- An opening line adds the block's node and pushes the block. -/
theorem add_opens (n : Nesting) (h : s.Opens kind name) :
    n.add s = .ok ⟨(n.withNodes (s.nodes n.parent)).tree,
      ⟨kind, name, s.pos.line, n.tree.size⟩ :: n.blocks⟩ := by
  rw [Statement.nodes_of_opens h, withNodes_singleton]
  obtain ⟨hk, unit, hv⟩ := h
  simp only [add, hk, role_opening, hv]
  rfl

/-- A closing line pops the block it closes and leaves the tree alone. -/
theorem add_closes {b : OpenBlock} {bs : List OpenBlock} (hblocks : n.blocks = b :: bs)
    (h : s.Closes b.kind b.name) : n.add s = .ok ⟨n.tree, bs⟩ := by
  obtain ⟨hk, hv | ⟨unit, hv⟩⟩ := h
  · simp only [add, hk, role_closing, hv]
    exact closeBlock_eq_ok hblocks fun _ hg => (Option.not_mem_none _ hg).elim
  · simp only [add, hk, role_closing, hv]
    exact closeBlock_eq_ok hblocks fun g hg => by cases hg; rfl

/-- What a statement that is put into the tree is, and what it does. -/
theorem add_cases (h : n.add s = .ok m) :
    (s.Plain ∧ m = n.withNodes (s.nodes n.parent)) ∨
    (∃ kind name, s.Opens kind name ∧ m = ⟨(n.withNodes (s.nodes n.parent)).tree,
      ⟨kind, name, s.pos.line, n.tree.size⟩ :: n.blocks⟩) ∨
    ∃ b bs, n.blocks = b :: bs ∧ s.Closes b.kind b.name ∧ m = ⟨n.tree, bs⟩ := by
  have hcopy := h
  unfold add at h
  split at h
  case h_1 kind v hr hv =>
    have hs : s.Opens kind v.text := ⟨eq_opening_of_role hr, v.unit, hv⟩
    exact .inr (.inl ⟨kind, v.text, hs, Except.ok.inj (hcopy.symm.trans (n.add_opens hs))⟩)
  case h_2 kind v hr hv =>
    obtain ⟨b, bs, hblocks, rfl, hname, rfl⟩ := exists_of_closeBlock h
    refine .inr (.inr ⟨b, bs, hblocks, ⟨eq_closing_of_role hr, .inr ⟨v.unit, ?_⟩⟩, rfl⟩)
    rw [hv, ← hname v.text rfl]
  case h_3 kind hr hv =>
    obtain ⟨b, bs, hblocks, rfl, -, rfl⟩ := exists_of_closeBlock h
    exact .inr (.inr ⟨b, bs, hblocks, ⟨eq_closing_of_role hr, .inl hv⟩, rfl⟩)
  case h_4 v hr hv =>
    have hs : s.Plain := ⟨role_eq_plain_iff.mp hr, by rw [hv]; exact Option.some_ne_none _⟩
    exact .inl ⟨hs, Except.ok.inj (hcopy.symm.trans (n.add_plain hs))⟩
  case h_5 vs hr hv =>
    have hs : s.Plain := ⟨role_eq_plain_iff.mp hr, by rw [hv]; exact Option.some_ne_none _⟩
    exact .inl ⟨hs, Except.ok.inj (hcopy.symm.trans (n.add_plain hs))⟩
  all_goals cases h

end Nesting

end ArchiveLabels.Odl
