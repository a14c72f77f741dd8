import ArchiveLabels.Proofs.Odl.Passage

/-!
# Where the nodes of a label stand

Every node of a legacy label but the root belongs to a statement (`IsTreeOf.exists_statement`) and
has its position, at which the keyword of the statement stands in the text. So positions follow the
order of the nodes, only the members of one set share a position, and every fault is reported for a
line of the text (`positions_readLabel`).
-/

namespace ArchiveLabels.Odl

open Text Label

variable {s : Statement} {ss before behind : List Statement} {t : Tree} {i k parent : Nat}
  {n : Node} {text word : String} {pos : Position}

/-! ## Places in a text -/

/-- The word stands in the text at the position : behind as many line feeds as the line says, and as
many characters behind the last of them as the column says. -/
def StandsAt (text : String) (pos : Position) (word : String) : Prop :=
  ∃ before behind, text.toList = before ++ (word.toList ++ behind) ∧
    pos.line = 1 + before.count '\n' ∧
    pos.column = 1 + (before.reverse.takeWhile fun c => c ≠ '\n').length

theorem line_of_leadsTo {start : Cursor} (h : (Cursor.ofString text).LeadsTo start) :
    1 ≤ start.pos.line ∧ start.pos.line ≤ 1 + text.toList.count '\n' := by
  obtain ⟨run, hrest, hpos⟩ := h
  have hrest' : text.toList = run ++ start.rest := hrest
  have hline : start.pos.line = 1 + run.count '\n' := by
    rw [hpos]
    exact Position.line_advance _ run
  rw [hrest', List.count_append, hline]
  omega

theorem standsAt_of_leadsTo {start : Cursor} (h : (Cursor.ofString text).LeadsTo start)
    (hfront : word.toList <+: start.rest) : StandsAt text start.pos word := by
  obtain ⟨run, hrest, hpos⟩ := h
  obtain ⟨behind, hbehind⟩ := hfront
  have hrest' : text.toList = run ++ start.rest := hrest
  have hpos' : start.pos = Position.start.advance run := hpos
  refine ⟨run, behind, by rw [hrest', hbehind], ?_, ?_⟩
  · rw [hpos', Position.line_advance]
    rfl
  · rw [hpos', Position.column_advance]

/-- Neither line nor column exceeds the number of characters by more than one. -/
theorem StandsAt.le_length (h : StandsAt text pos word) :
    pos.line ≤ text.length + 1 ∧ pos.column ≤ text.length + 1 := by
  obtain ⟨before, behind, htext, hline, hcolumn⟩ := h
  have hlength : before.length ≤ text.length := by
    rw [← String.length_toList, htext, List.length_append]
    omega
  have hcount : before.count '\n' ≤ before.length := List.count_le_length
  have htake : (before.reverse.takeWhile fun c => c ≠ '\n').length ≤ before.length := by
    rw [← before.length_reverse]
    exact (List.takeWhile_prefix _).length_le
  omega

/-! ## The nodes of a statement -/

/-- The word that marks a node in the text : the name of a value, the kind of a block. -/
inductive Marks : Node → String → Prop
  /-- A node with a text. -/
  | value {n : Node} {v : String} (h : n.text = some v) : Marks n n.name
  /-- A node without a text, of an object or a group. -/
  | block {n : Node} {kind : BlockKind} (h : n.text = none)
    (hkind : n.attributes = [("kind", kind.opening)]) : Marks n kind.opening

theorem marks_of_mem_nodes (h : n ∈ s.nodes parent) : Marks n s.keyword := by
  unfold Statement.nodes at h
  split at h
  · rename_i kind name hrole _
    obtain rfl := List.mem_singleton.mp h
    rw [eq_opening_of_role hrole]
    exact .block rfl rfl
  · obtain rfl := List.mem_singleton.mp h
    exact .value rfl
  · obtain ⟨v, -, rfl⟩ := List.mem_map.mp h
    exact .value rfl
  · cases h

theorem pos_of_mem_nodes (h : n ∈ s.nodes parent) : n.pos = s.pos := by
  unfold Statement.nodes at h
  split at h
  · rw [List.mem_singleton.mp h]
    rfl
  · rw [List.mem_singleton.mp h]
    rfl
  · obtain ⟨v, -, rfl⟩ := List.mem_map.mp h
    rfl
  · cases h

/-- A statement of several nodes is a set. -/
theorem exists_set_of_size (h : 1 < s.size) :
    ∃ vs, s.value = some (.set vs) ∧ ∀ parent, s.nodes parent = vs.map (s.valueNode parent) := by
  unfold Statement.size Statement.nodes at h
  split at h
  · simp at h
  · simp at h
  · rename_i vs hrole hvalue
    exact ⟨vs, hvalue, fun parent => by simp only [Statement.nodes, hrole, hvalue]⟩
  · simp at h

/-! ## Every node belongs to a statement -/

theorem exists_split (ss : List Statement) (hpos : 0 < i) (hi : i < nodesBehind ss) :
    ∃ before s behind, ss = before ++ s :: behind ∧ nodesBehind before ≤ i ∧
      i < nodesBehind before + s.size := by
  induction ss using List.reverseRecOn with
  | nil =>
    rw [nodesBehind] at hi
    omega
  | append_singleton ss s ih =>
    by_cases hlt : i < nodesBehind ss
    · obtain ⟨before, s', behind, rfl, hbefore⟩ := ih hlt
      exact ⟨before, s', behind ++ [s], by simp, hbefore⟩
    · rw [nodesBehind_concat] at hi
      exact ⟨ss, s, [], rfl, by omega, hi⟩

/-- The nodes of a statement have the numbers behind those of the statements before it. -/
theorem IsTreeOf.node_of_split (h : IsTreeOf ss t) (hss : ss = before ++ s :: behind) :
    ∃ parent, Under before parent ∧
      ∀ k, k < s.size → (s.nodes parent)[k]? = some (t.node (nodesBehind before + k)) := by
  obtain ⟨parent, hu, rest, hrest⟩ := h.nodes before s behind hss
  refine ⟨parent, hu, fun k hk => ?_⟩
  have hin : nodesBehind before + k < t.nodes.size := by
    have hsize := h.size
    have hle := nodesBehind_le before s behind
    rw [Tree.size, hss] at hsize
    omega
  have hget : (s.nodes parent ++ rest)[k]? = some (t.node (nodesBehind before + k)) := by
    rw [hrest, List.getElem?_drop, Label.Tree.node, Array.getD_eq_getD_getElem?,
      Array.getElem?_toList, Array.getElem?_eq_getElem hin, Option.getD_some]
  rwa [List.getElem?_append_left (by rwa [s.length_nodes])] at hget

/-- Every node but the root is one of a statement. -/
theorem IsTreeOf.exists_statement (h : IsTreeOf ss t) (hpos : 0 < i) (hi : i < t.size) :
    ∃ before s behind parent, ss = before ++ s :: behind ∧ nodesBehind before ≤ i ∧
      i < nodesBehind before + s.size ∧ t.node i ∈ s.nodes parent := by
  obtain ⟨before, s, behind, hss, hle, hlt⟩ := exists_split ss hpos (h.size ▸ hi)
  obtain ⟨parent, -, hnodes⟩ := h.node_of_split hss
  have hnode := hnodes (i - nodesBehind before) (by omega)
  rw [Nat.add_sub_cancel' hle] at hnode
  exact ⟨before, s, behind, parent, hss, hle, hlt, List.mem_of_getElem? hnode⟩

/-- Of two nodes the first stands earlier, or both are of one statement. -/
theorem IsTreeOf.pos_cases {j : Nat} (h : IsTreeOf ss t)
    (horder : ss.Pairwise fun s s' => s.pos < s'.pos) (hpos : 0 < i) (hij : i ≤ j)
    (hj : j < t.size) :
    t.pos i < t.pos j ∨ ∃ before s behind, ss = before ++ s :: behind ∧ nodesBehind before ≤ i ∧
      j < nodesBehind before + s.size ∧ t.pos i = t.pos j := by
  obtain ⟨before, s, behind, p, hss, hle, hlt, hi⟩ := h.exists_statement hpos (by omega)
  obtain ⟨before', s', behind', p', hss', hle', hlt', hj'⟩ := h.exists_statement (by omega) hj
  have hposi : t.pos i = s.pos := pos_of_mem_nodes hi
  have hposj : t.pos j = s'.pos := pos_of_mem_nodes hj'
  have hplaces := append_cons_cases (hss.symm.trans hss')
  rcases hplaces with ⟨rfl, rfl, rfl⟩ | ⟨mid, -, rfl⟩ | ⟨mid, rfl, -⟩
  · exact .inr ⟨before, s, behind, hss, hle, hlt', hposi.trans hposj.symm⟩
  · rw [hss] at horder
    have hbehind := (List.pairwise_cons.mp (List.pairwise_append.mp horder).2.1).1
    rw [hposi, hposj]
    exact .inl (hbehind s' (List.mem_append_right mid List.mem_cons_self))
  · have hbefore := nodesBehind_le before' s' mid
    omega

/-! ## Lines of faults -/

theorem line_of_add {n : Nesting} {e : Fault} (h : n.add s = .error e) : e.line = s.pos.line := by
  have hclose {kind : BlockKind} {name : Option String} {line : Nat}
      (h : n.closeBlock kind name line = .error e) : e.line = line := by
    unfold Nesting.closeBlock at h
    split at h
    · cases h
      rfl
    · split at h
      · cases h
        rfl
      · split at h
        · cases h
        · split at h <;> cases h
          rfl
  unfold Nesting.add at h
  split at h
  case h_1 => cases h
  case h_2 => exact hclose h
  case h_3 => exact hclose h
  case h_4 => cases h
  case h_5 => cases h
  case h_6 => cases h; rfl
  case h_7 => cases h; rfl

theorem line_of_addAll {n : Nesting} {e : Fault} (h : n.addAll ss = .error e) :
    ∃ s ∈ ss, e.line = s.pos.line := by
  induction ss generalizing n with
  | nil => cases h
  | cons s ss ih =>
    rw [Nesting.addAll] at h
    split at h
    · rename_i hs
      cases h
      exact ⟨s, List.mem_cons_self, line_of_add hs⟩
    · obtain ⟨s', hs', hline⟩ := ih h
      exact ⟨s', List.mem_cons_of_mem s hs', hline⟩

/-- A block stands where its opening does. -/
theorem Leaves.line {bs : List OpenBlock} {b : OpenBlock} (h : Leaves ss bs) (hb : b ∈ bs) :
    ∃ s ∈ ss, b.line = s.pos.line := by
  induction h with
  | none => cases hb
  | @block outer inner bs o kind name houter ho hinner ih =>
    rcases List.mem_cons.mp hb with rfl | hb
    · exact ⟨o, by simp, rfl⟩
    · obtain ⟨s, hs, hline⟩ := ih hb
      exact ⟨s, List.mem_append_left _ hs, hline⟩

/-- Why a text is no label : a statement cannot be read, or the fault is reported for one that
can. -/
theorem line_of_readLabel {e : Fault} (h : readLabel text = .error e) :
    (∃ s ∈ (Odl.statements (.ofString text)).1, e.line = s.pos.line) ∨
      e ∈ (Odl.statements (.ofString text)).2 := by
  unfold readLabel at h
  simp only at h
  split at h
  · rename_i hadd
    cases h
    exact .inl (line_of_addAll hadd)
  · rename_i n hadd
    split at h
    · rename_i hfault
      cases h
      exact .inr hfault
    · unfold Nesting.finish at h
      split at h
      · cases h
      · rename_i b bs hblocks
        cases h
        have hleaves := (Nesting.builds_empty.addAll hadd).leaves
        exact .inl (hleaves.line (hblocks ▸ List.mem_cons_self))

/-! ## Labels -/

section

variable (hreads : Reads (.ofString text) ss) (htree : IsTreeOf ss t)
include hreads htree

/-- The keyword of a node's statement stands at its position. -/
theorem exists_start (hpos : 0 < i) (hi : i < t.size) :
    ∃ start word, (Cursor.ofString text).LeadsTo start ∧ start.pos = t.pos i ∧
      Marks (t.node i) word ∧ word.toList <+: start.rest := by
  obtain ⟨before, s, behind, parent, rfl, -, -, hnode⟩ := htree.exists_statement hpos hi
  have hmem : s ∈ (Odl.statements (.ofString text)).1 := by
    rw [reads_iff.mp hreads]
    exact List.mem_append_right before List.mem_cons_self
  obtain ⟨start, hstart, hplace, hfront⟩ := stands_of_mem_statements hmem
  exact ⟨start, s.keyword, hstart, hplace.trans (pos_of_mem_nodes hnode).symm,
    marks_of_mem_nodes hnode, hfront⟩

theorem pos_le_of_le {j : Nat} (hij : i ≤ j) (hj : j < t.size) : t.pos i ≤ t.pos j := by
  rcases Nat.eq_zero_or_pos i with rfl | hpos
  · have hroot : t.pos 0 = .start := congrArg Node.pos htree.root
    rcases Nat.eq_zero_or_pos j with rfl | hpos
    · exact Position.le_refl _
    · obtain ⟨start, -, hstart, hplace, -⟩ := exists_start hreads htree hpos hj
      rw [hroot, ← hplace]
      exact hstart.le
  · rcases htree.pos_cases hreads.pairwise hpos hij hj with hlt | ⟨-, -, -, -, -, -, heq⟩
    · exact Position.le_of_lt hlt
    · exact heq ▸ Position.le_refl _

/-- Nodes at one position are members of one set, and so are those between them. -/
theorem exists_set_of_pos_eq {j : Nat} (hpos : 0 < i) (hij : i < j) (hj : j < t.size)
    (heq : t.pos i = t.pos j) :
    ∃ s ∈ ss, ∃ vs first parent, s.value = some (.set vs) ∧ ∀ k, i ≤ k → k ≤ j →
      first ≤ k ∧ vs[k - first]?.map (s.valueNode parent) = some (t.node k) := by
  rcases htree.pos_cases hreads.pairwise hpos hij.le hj with
    hlt | ⟨before, s, behind, hss, hle, hlt, -⟩
  · exact absurd (heq ▸ hlt) (Position.lt_irrefl _)
  · obtain ⟨vs, hvalue, hset⟩ := exists_set_of_size (s := s) (by omega)
    obtain ⟨parent, -, hnodes⟩ := htree.node_of_split hss
    refine ⟨s, by simp [hss], vs, nodesBehind before, parent, hvalue, fun k hk hkj => ?_⟩
    have hnode := hnodes (k - nodesBehind before) (by omega)
    rw [hset, List.getElem?_map, Nat.add_sub_cancel' (by omega)] at hnode
    exact ⟨by omega, hnode⟩

end

/-- **Positions point at the statements.** At the position of every node but the root its name
stands in the text, or its kind if it is a block. Positions never come earlier along the nodes, and
nodes that share one are members of one set, without another node between them. Every fault is
reported for a line of the text. -/
theorem positions_readLabel (text : String) :
    match readLabel text with
    | .ok t =>
      (∀ i, 0 < i → i < t.size → ∃ word, Marks (t.node i) word ∧ StandsAt text (t.pos i) word ∧
        (t.pos i).line ≤ text.length + 1 ∧ (t.pos i).column ≤ text.length + 1) ∧
      (∀ i j, i ≤ j → j < t.size → t.pos i ≤ t.pos j) ∧
      ∀ i j, 0 < i → i < j → j < t.size → t.pos i = t.pos j →
        t.name i = t.name j ∧ t.parent? i = t.parent? j ∧
        ∃ ss, Reads (.ofString text) ss ∧ ∃ s ∈ ss, ∃ vs first parent, s.value = some (.set vs) ∧
          ∀ k, i ≤ k → k ≤ j → first ≤ k ∧
            vs[k - first]?.map (s.valueNode parent) = some (t.node k)
    | .error e => 1 ≤ e.line ∧ e.line ≤ 1 + text.toList.count '\n' := by
  split
  · rename_i t ht
    obtain ⟨ss, hreads, hadd⟩ := readLabel_eq_ok_iff.mp ht
    have htree : IsTreeOf ss t := (Nesting.builds_empty.addAll hadd).isTreeOf
    refine ⟨fun i hpos hi => ?_, fun i j => pos_le_of_le hreads htree,
      fun i j hpos hij hj heq => ?_⟩
    · obtain ⟨start, word, hstart, hplace, hmarks, hfront⟩ := exists_start hreads htree hpos hi
      have hstands := standsAt_of_leadsTo hstart hfront
      rw [hplace] at hstands
      exact ⟨word, hmarks, hstands, hstands.le_length⟩
    · obtain ⟨s, hs, vs, first, parent, hvalue, hset⟩ :=
        exists_set_of_pos_eq hreads htree hpos hij hj heq
      have hnode (k : Nat) (hk : i ≤ k) (hkj : k ≤ j) :
          t.name k = s.keyword ∧ t.parent? k = some parent := by
        obtain ⟨v, -, hv⟩ := Option.map_eq_some_iff.mp (hset k hk hkj).2
        rw [Tree.name, Tree.parent?, ← hv]
        exact ⟨rfl, rfl⟩
      have hi := hnode i (Nat.le_refl i) hij.le
      have hj := hnode j hij.le (Nat.le_refl j)
      exact ⟨hi.1.trans hj.1.symm, hi.2.trans hj.2.symm, ss, hreads, s, hs, vs, first, parent,
        hvalue, hset⟩
  · rename_i e he
    rcases line_of_readLabel he with ⟨s, hs, hline⟩ | hfault
    · obtain ⟨start, hstart, hplace, -⟩ := stands_of_mem_statements hs
      rw [hline, ← hplace]
      exact line_of_leadsTo hstart
    · obtain ⟨d, hd, hline⟩ := within_of_statements hfault
      rw [hline]
      exact line_of_leadsTo hd

end ArchiveLabels.Odl
