import ArchiveLabels.Proofs.Odl.RoundTrip

/-!
# Properly nested statements

Which lists of statements a legacy label may have, told without a stack : `Nested` has one rule for
a statement that concerns no block and one for a block, which is an opening, what is nested in it,
and a closing of the same kind that gives the same name or none. `Under` says which node the next
statement belongs to, `IsTreeOf` what the tree of a list of statements is. Putting statements into a
tree one by one succeeds and leaves no block open just if they are nested
(`Nesting.addAll_nested`, `Nesting.Builds.addAll`).
-/

namespace ArchiveLabels.Odl

open Text Label

variable {s o c : Statement} {ss inner outer before behind : List Statement} {kind : BlockKind}
  {name : String} {parent : Nat}

/-! ## Two places in a list -/

/-- Two places in a list are the same, or one of them is behind the other. -/
theorem append_cons_cases {α : Type*} {xs xs' ys ys' : List α} {x x' : α}
    (h : xs ++ x :: ys = xs' ++ x' :: ys') :
    (xs = xs' ∧ x = x' ∧ ys = ys') ∨ (∃ zs, xs' = xs ++ x :: zs ∧ ys = zs ++ x' :: ys') ∨
      ∃ zs, xs = xs' ++ x' :: zs ∧ ys' = zs ++ x :: ys := by
  rcases List.append_eq_append_iff.mp h with ⟨zs, rfl, hzs⟩ | ⟨zs, rfl, hzs⟩ <;>
    rcases zs with _ | ⟨z, zs⟩ <;> obtain ⟨rfl, rfl⟩ := List.cons.inj hzs
  · exact .inl ⟨(List.append_nil _).symm, rfl, rfl⟩
  · exact .inr (.inl ⟨zs, rfl, rfl⟩)
  · exact .inl ⟨List.append_nil _, rfl, rfl⟩
  · exact .inr (.inr ⟨zs, rfl, rfl⟩)

/-! ## Numbers of nodes -/

/-- The number of the first node behind those of the statements, where the root is the first of
all. -/
def nodesBehind : List Statement → Nat
  | [] => 1
  | s :: ss => s.size + nodesBehind ss

theorem nodesBehind_pos (ss : List Statement) : 0 < nodesBehind ss := by
  induction ss with
  | nil => exact Nat.one_pos
  | cons s ss ih => exact Nat.add_pos_right s.size ih

theorem nodesBehind_concat (ss : List Statement) (s : Statement) :
    nodesBehind (ss ++ [s]) = nodesBehind ss + s.size := by
  induction ss with
  | nil => exact Nat.add_comm _ _
  | cons t ss ih => rw [List.cons_append, nodesBehind, nodesBehind, ih, Nat.add_assoc]

theorem nodesBehind_le (before : List Statement) (s : Statement) (behind : List Statement) :
    nodesBehind before + s.size ≤ nodesBehind (before ++ s :: behind) := by
  induction before with
  | nil =>
    have hpos := nodesBehind_pos behind
    simp only [List.nil_append, nodesBehind]
    omega
  | cons t before ih =>
    simp only [List.cons_append, nodesBehind]
    omega

/-! ## Nesting -/

/-- Statements that nest properly and leave no block open. -/
inductive Nested : List Statement → Prop
  /-- No statement. -/
  | nil : Nested []
  /-- A statement that concerns no block. -/
  | plain {s : Statement} {ss : List Statement} (hss : Nested ss) (h : s.Plain) : Nested (s :: ss)
  /-- A block, closed by a statement of its kind that gives its name or none. -/
  | block {o c : Statement} {inner ss : List Statement} {kind : BlockKind} {name : String}
    (ho : o.Opens kind name) (hinner : Nested inner) (hc : c.Closes kind name) (hss : Nested ss) :
    Nested (o :: (inner ++ c :: ss))

/-- Two nested runs, one behind the other, are nested. -/
theorem Nested.append (h : Nested ss) {ss' : List Statement} (h' : Nested ss') :
    Nested (ss ++ ss') := by
  induction h with
  | nil => exact h'
  | plain _ h ih => exact ih.plain h
  | block ho hinner hc _ _ ih =>
    rw [List.cons_append, List.append_assoc, List.cons_append]
    exact .block ho hinner hc ih

/-- The statement behind `before` belongs to the node `parent` : that of the innermost block which
they leave open, or else the root. -/
inductive Under : List Statement → Nat → Prop
  /-- No block is open. -/
  | root {before : List Statement} (h : Nested before) : Under before 0
  /-- The statement `o` opens a block, and all blocks behind it are closed again. -/
  | block {outer inner : List Statement} {o : Statement} {kind : BlockKind} {name : String}
    (ho : o.Opens kind name) (h : Nested inner) : Under (outer ++ o :: inner) (nodesBehind outer)

/-- How many blocks more a statement leaves open. -/
def Statement.rise (s : Statement) : Int :=
  match role s.keyword with
  | .opens _ => 1
  | .closes _ => -1
  | .plain => 0

/-- How many more openings than closings there are. -/
def rise : List Statement → Int
  | [] => 0
  | s :: ss => s.rise + rise ss

theorem rise_cons_opens (h : o.Opens kind name) (ss : List Statement) :
    rise (o :: ss) = 1 + rise ss := by
  simp [rise, Statement.rise, h.1, role_opening]

theorem rise_cons_closes (h : c.Closes kind name) (ss : List Statement) :
    rise (c :: ss) = -1 + rise ss := by
  simp [rise, Statement.rise, h.1, role_closing]

theorem rise_cons_plain (h : s.Plain) (ss : List Statement) : rise (s :: ss) = rise ss := by
  simp [rise, Statement.rise, role_eq_plain_iff.mpr h.1]

/-- The rise over two runs is the sum of their rises. -/
theorem rise_append (ss ss' : List Statement) : rise (ss ++ ss') = rise ss + rise ss' := by
  induction ss with
  | nil => exact (Int.zero_add _).symm
  | cons s ss ih => rw [List.cons_append, rise, rise, ih, Int.add_assoc]

/-- A nested run closes all it opens. -/
theorem Nested.rise_eq_zero (h : Nested ss) : rise ss = 0 := by
  induction h with
  | nil => rfl
  | plain _ h ih => rw [rise_cons_plain h, ih]
  | block ho _ hc _ ihInner ih =>
    rw [rise_cons_opens ho, rise_append, ihInner, rise_cons_closes hc, ih]
    rfl

/-- What is behind any place in nested statements closes at least as many blocks as it opens. -/
theorem Nested.rise_suffix (h : Nested ss) (hsuffix : behind <:+ ss) : rise behind ≤ 0 := by
  induction h generalizing behind with
  | nil => exact Int.le_of_eq (congrArg rise (List.suffix_nil.mp hsuffix))
  | plain hss h ih =>
    rcases List.suffix_cons_iff.mp hsuffix with rfl | hsuffix
    · exact Int.le_of_eq (hss.plain h).rise_eq_zero
    · exact ih hsuffix
  | block ho hinner hc hss ihInner ih =>
    rcases List.suffix_cons_iff.mp hsuffix with rfl | ⟨front, hfront⟩
    · exact Int.le_of_eq (Nested.block ho hinner hc hss).rise_eq_zero
    · rcases List.append_eq_append_iff.mp hfront with ⟨rest, rfl, rfl⟩ | ⟨rest, rfl, hrest⟩
      · have hrise := ihInner (List.suffix_append front rest)
        rw [rise_append, rise_cons_closes hc, hss.rise_eq_zero]
        omega
      · rcases List.suffix_cons_iff.mp ⟨rest, hrest.symm⟩ with rfl | hsuffix
        · rw [rise_cons_closes hc, hss.rise_eq_zero]
          decide
        · exact ih hsuffix

/-- In nested statements no block is open behind its opening if all behind it nests. -/
theorem Nested.not_opens (h : Nested (outer ++ o :: inner)) (hinner : Nested inner) :
    ¬o.Opens kind name := by
  intro ho
  have hrise := h.rise_suffix (List.suffix_append outer _)
  rw [rise_cons_opens ho, hinner.rise_eq_zero] at hrise
  omega

/-- There is one innermost open block. -/
theorem Under.unique {p q : Nat} (hp : Under before p) (hq : Under before q) : p = q := by
  cases hp with
  | root h =>
    cases hq with
    | root _ => rfl
    | block ho hinner => exact absurd ho (h.not_opens hinner)
  | @block outer inner o kind name ho h =>
    generalize hbefore : outer ++ o :: inner = before at hq
    cases hq with
    | root h' => exact absurd ho ((hbefore ▸ h').not_opens h)
    | @block outer' inner' o' kind' name' ho' h' =>
      -- If one of the two openings stood behind the other, it would be open in nested statements.
      rcases append_cons_cases hbefore with ⟨rfl, -⟩ | ⟨mid, -, rfl⟩ | ⟨mid, -, rfl⟩
      · rfl
      · exact absurd ho' (h.not_opens h')
      · exact absurd ho (h'.not_opens h)

/-- The blocks that statements leave open, innermost first. -/
inductive Leaves : List Statement → List OpenBlock → Prop
  /-- No block is open. -/
  | none {ss : List Statement} (h : Nested ss) : Leaves ss []
  /-- The statement `o` opens a block, and all blocks behind it are closed again. -/
  | block {outer inner : List Statement} {bs : List OpenBlock} {o : Statement} {kind : BlockKind}
    {name : String} (houter : Leaves outer bs) (ho : o.Opens kind name) (h : Nested inner) :
    Leaves (outer ++ o :: inner) (⟨kind, name, o.pos.line, nodesBehind outer⟩ :: bs)

namespace Leaves

variable {bs : List OpenBlock} {b : OpenBlock}

/-- A nested run leaves the open blocks as they were. -/
theorem append (h : Leaves ss bs) (h' : Nested inner) : Leaves (ss ++ inner) bs := by
  cases h with
  | none h => exact .none (h.append h')
  | block houter ho h =>
    rw [List.append_assoc, List.cons_append]
    exact .block houter ho (h.append h')

theorem plain (h : Leaves ss bs) (hs : s.Plain) : Leaves (ss ++ [s]) bs :=
  h.append (Nested.nil.plain hs)

/-- A closing ends the innermost block. -/
theorem close (h : Leaves ss (b :: bs)) (hs : s.Closes b.kind b.name) : Leaves (ss ++ [s]) bs := by
  cases h with
  | block houter ho h =>
    rw [List.append_assoc]
    exact houter.append (.block ho h hs .nil)

/-- The innermost open block is the parent of what comes next. -/
theorem under {n : Nesting} (h : Leaves ss n.blocks) : Under ss n.parent := by
  obtain ⟨tree, blocks⟩ := n
  cases h with
  | none h => exact .root h
  | block _ ho h => exact .block ho h

end Leaves

/-! ## The tree of a list of statements -/

/-- The tree is that of the statements : behind the root each of them has its nodes in its turn,
under the innermost block open at it. -/
structure IsTreeOf (ss : List Statement) (t : Tree) : Prop where
  dialect : t.dialect = .legacy
  root : t.node 0 = rootNode
  size : t.size = nodesBehind ss
  nodes : ∀ before s behind, ss = before ++ s :: behind → ∃ parent, Under before parent ∧
    s.nodes parent <+: t.nodes.toList.drop (nodesBehind before)

/-- The empty tree, a root alone, is that of no statements. -/
theorem isTreeOf_empty : IsTreeOf [] Nesting.empty.tree where
  dialect := rfl
  root := rfl
  size := rfl
  nodes before s behind h := by simp at h

/-- A statement behind all others puts its nodes behind all others. -/
theorem IsTreeOf.concat {n : Nesting} (h : IsTreeOf ss n.tree) (hu : Under ss parent) :
    IsTreeOf (ss ++ [s]) (n.withNodes (s.nodes parent)).tree where
  dialect := h.dialect
  root := by
    have hroot := h.root
    have hpos : 0 < n.tree.nodes.size := Nat.lt_of_lt_of_eq (nodesBehind_pos ss) h.size.symm
    simpa [Nesting.withNodes, Label.Tree.node, Array.getD_eq_getD_getElem?, Array.getElem?_append,
      hpos] using hroot
  size := by
    rw [Nesting.size_withNodes, h.size, Statement.length_nodes, nodesBehind_concat]
  nodes before x behind heq := by
    have hsize : n.tree.nodes.toList.length = nodesBehind ss := h.size
    simp only [Nesting.withNodes, Array.toList_append]
    rcases append_cons_cases heq with ⟨rfl, rfl, -⟩ | ⟨_, -, hnil⟩ | ⟨behind', hss, -⟩
    · refine ⟨parent, hu, ?_⟩
      rw [← hsize, List.drop_left]
    · simp at hnil
    · obtain ⟨p, hp, hfront⟩ := h.nodes before x behind' hss
      refine ⟨p, hp, ?_⟩
      rw [List.drop_append_of_le_length]
      · exact hfront.trans (List.prefix_append _ _)
      · rw [hsize, hss]
        exact (Nat.le_add_right _ _).trans (nodesBehind_le before x behind')

/-- There is one tree of a list of statements. -/
theorem IsTreeOf.unique {t t' : Tree} (h : IsTreeOf ss t) (h' : IsTreeOf ss t') : t = t' := by
  -- Behind the nodes of any statements in front, both trees go on alike.
  have hdrop (before behind : List Statement) (hss : ss = before ++ behind) :
      t.nodes.toList.drop (nodesBehind before) = t'.nodes.toList.drop (nodesBehind before) := by
    induction behind generalizing before with
    | nil =>
      rw [List.append_nil] at hss
      have hsize : t.nodes.toList.length = nodesBehind ss := h.size
      have hsize' : t'.nodes.toList.length = nodesBehind ss := h'.size
      rw [← hss, List.drop_of_length_le hsize.le, List.drop_of_length_le hsize'.le]
    | cons s behind ih =>
      have hnext := ih (before ++ [s]) (by rw [hss, List.append_assoc]; rfl)
      obtain ⟨p, hp, rest, hrest⟩ := h.nodes before s behind hss
      obtain ⟨p', hp', rest', hrest'⟩ := h'.nodes before s behind hss
      obtain rfl := hp.unique hp'
      have hbehind (ns : List Node) : (s.nodes p ++ ns).drop s.size = ns := by
        rw [← s.length_nodes p, List.drop_left]
      rw [nodesBehind_concat, ← List.drop_drop, ← List.drop_drop, ← hrest, ← hrest', hbehind,
        hbehind] at hnext
      rw [← hrest, ← hrest', hnext]
  obtain ⟨dialect, ⟨ns⟩⟩ := t
  obtain ⟨dialect', ⟨ns'⟩⟩ := t'
  obtain rfl : dialect = .legacy := h.dialect
  obtain rfl : dialect' = .legacy := h'.dialect
  have hroot := h.root.trans h'.root.symm
  have htail : ns.drop 1 = ns'.drop 1 := hdrop [] ss rfl
  have hsize : ns.length = nodesBehind ss := h.size
  have hsize' : ns'.length = nodesBehind ss := h'.size
  have hpos := nodesBehind_pos ss
  rcases ns with _ | ⟨x, ns⟩
  · exact absurd hsize hpos.ne
  rcases ns' with _ | ⟨y, ns'⟩
  · exact absurd hsize' hpos.ne
  obtain rfl : x = y := hroot
  obtain rfl : ns = ns' := htail
  rfl

/-! ## Putting statements into the tree -/

namespace Nesting

variable {n m : Nesting}

/-- The nesting is what the statements make of an empty tree. -/
structure Builds (ss : List Statement) (n : Nesting) : Prop where
  isTreeOf : IsTreeOf ss n.tree
  leaves : Leaves ss n.blocks

theorem builds_empty : Builds [] empty :=
  ⟨isTreeOf_empty, .none .nil⟩

/-- One step keeps the invariant : the tree is that of the statements so far, and the blocks
those they leave open. -/
theorem Builds.add (h : Builds ss n) (hm : n.add s = .ok m) : Builds (ss ++ [s]) m := by
  have htree := h.isTreeOf.concat (s := s) h.leaves.under
  rcases add_cases hm with ⟨hs, rfl⟩ | ⟨kind, name, hs, rfl⟩ | ⟨b, bs, hblocks, hs, rfl⟩
  · exact ⟨htree, h.leaves.plain hs⟩
  · refine ⟨htree, ?_⟩
    have hleaves := Leaves.block h.leaves hs .nil
    rwa [← h.isTreeOf.size] at hleaves
  · rw [Statement.nodes_of_closes hs, withNodes_nil] at htree
    exact ⟨htree, (hblocks ▸ h.leaves).close hs⟩

/-- A run of steps keeps the invariant. -/
theorem Builds.addAll (h : Builds before n) (hm : n.addAll ss = .ok m) :
    Builds (before ++ ss) m := by
  induction ss generalizing before n with
  | nil =>
    cases hm
    rwa [List.append_nil]
  | cons s ss ih =>
    rw [Nesting.addAll] at hm
    split at hm
    · cases hm
    · rename_i hs
      rw [List.append_cons]
      exact ih (h.add hs) hm

/-- Nested statements can be put into any tree, and leave the blocks open that were open before. -/
theorem addAll_nested (h : Nested ss) (n : Nesting) :
    ∃ m, n.addAll ss = .ok m ∧ m.blocks = n.blocks := by
  induction h generalizing n with
  | nil => exact ⟨n, rfl, rfl⟩
  | plain _ hs ih =>
    obtain ⟨m, hm, hblocks⟩ := ih (n.withNodes _)
    exact ⟨m, (addAll_cons (n.add_plain hs) _).trans hm, hblocks⟩
  | block ho _ hc _ ihInner ih =>
    obtain ⟨m, hm, hblocks⟩ := ihInner ⟨(n.withNodes _).tree, ⟨_, _, _, n.tree.size⟩ :: n.blocks⟩
    obtain ⟨m', hm', hblocks'⟩ := ih ⟨m.tree, n.blocks⟩
    refine ⟨m', ?_, hblocks'⟩
    rw [addAll_cons (n.add_opens ho), addAll_append hm, addAll_cons (add_closes hblocks hc), hm']

end Nesting

end ArchiveLabels.Odl
