import ArchiveLabels.Proofs.Odl.Steps
import ArchiveLabels.Proofs.Odl.Written

/-!
# Reading what is written

A written label is read back (`Odl.readLabel_written`). Each piece is read up to its end whatever
stands behind it, so that the statements of a body are those of its pieces followed by those of the
rest (`Odl.statements_body`); and putting them into a tree leaves the same blocks open as before
(`Odl.Nesting.addAll_body`), so that each node has the parent that the nesting says.
-/

namespace ArchiveLabels.Odl

open Text Label

variable {keyword : String} {stops cs rest : List Char} {p : Position}

/-! ## Gaps -/

theorem skipBlank_fillers (fs : List Filler) (rest : List Char) (p : Position) :
    skipBlank ⟨fs.flatMap Filler.chars ++ rest, p⟩ =
      skipBlank ⟨rest, p.advance (fs.flatMap Filler.chars)⟩ := by
  induction fs generalizing p with
  | nil => rfl
  | cons f fs ih =>
    rw [List.flatMap_cons, List.append_assoc, Position.advance_append, ← ih]
    cases f with
    | blank c h => exact skipBlank_cons_blank h _ p
    | comment body h =>
      have hskip := skipBlank_append_comment h (fs.flatMap Filler.chars ++ rest) p
      simpa [Filler.chars] using hskip

theorem skipBlank_gap (g : Gap) (rest : List Char) (p : Position) :
    skipBlank ⟨g.chars ++ rest, p⟩ = skipBlank ⟨rest, p.advance g.chars⟩ := by
  rw [Gap.chars, List.cons_append, skipBlank_cons_blank (by decide), skipBlank_fillers,
    Position.advance_cons]

/-! ## Values -/

/-- A character stands here that ends a value in quotes : it is neither a space nor does it start a
unit. -/
def EndsQuantity (rest : List Char) : Prop :=
  endsSpace rest = true ∧ startsWith '<' rest = false

/-- No unit is read where a quantity ends. -/
theorem unit?_none (h : EndsQuantity rest) : unit? (skipSpace ⟨rest, p⟩) = .ok (none, ⟨rest, p⟩) := by
  rw [skipSpace_eq_self h.1, unit?, h.2]
  rfl

/-- A written unit is read back, trimmed. -/
theorem unit?_some (u : UnitName) (rest : List Char) (p : Position) :
    unit? (skipSpace ⟨Quantity.unitChars (some u) ++ rest, p⟩) =
      .ok (some (String.ofList u.chars), ⟨rest, p.advance (Quantity.unitChars (some u))⟩) := by
  have hunit := unit_append u.noClose u.noLineEnd rest (p.after ' ')
  rw [trim, String.toList_ofList, u.trimmed] at hunit
  simp only [Quantity.unitChars, List.cons_append, List.append_assoc, List.nil_append,
    skipSpace_cons_space]
  rw [skipSpace_eq_self rfl, unit?, hunit]
  rfl

/-- A value in quotes is read as far as what stands behind the quotes is read as its unit. -/
theorem quotedScalar_of_unit? (q : Quantity) {d : Cursor}
    (hunit : unit? (skipSpace ⟨Quantity.unitChars q.unit ++ rest, p.advance q.value.quoted⟩) =
      .ok (q.unit.map fun u => String.ofList u.chars, d)) :
    quotedScalar '"' ⟨q.chars ++ rest, p⟩ = .ok (q.scalar, d) := by
  have hquoted := quoted_append q.value.noQuote (Quantity.unitChars q.unit ++ rest) p
  rw [Quantity.chars]
  simp only [Quotable.quoted, List.cons_append, List.append_assoc, List.nil_append] at hunit ⊢
  rw [quotedScalar, hquoted]
  simp only [hunit]
  rfl

/-- A quoted quantity reads back as its scalar, and the cursor stands behind it. -/
theorem quotedScalar_quantity (q : Quantity) (h : EndsQuantity rest) :
    quotedScalar '"' ⟨q.chars ++ rest, p⟩ = .ok (q.scalar, ⟨rest, p.advance q.chars⟩) := by
  refine quotedScalar_of_unit? q ?_
  rw [Quantity.chars, Position.advance_append]
  cases q.unit with
  | none => exact unit?_none h
  | some u => exact unit?_some u rest _

theorem scalar_quantity (keyword : String) (stops : List Char) (q : Quantity)
    (h : EndsQuantity rest) :
    scalar keyword stops ⟨q.chars ++ rest, p⟩ = .ok (q.scalar, ⟨rest, p.advance q.chars⟩) := by
  have hany : anyScalar stops ⟨q.chars ++ rest, p⟩ = quotedScalar '"' ⟨q.chars ++ rest, p⟩ := rfl
  have hne : q.scalar.text.isEmpty = false := by
    simp [Quantity.scalar, q.value.ne_nil]
  rw [scalar, hany, quotedScalar_quantity q h]
  simp only [hne, Bool.false_and, Bool.false_eq_true, if_false]

/-! ## Sets -/

theorem endsQuantity_membersChars (qs : List Quantity) (rest : List Char) :
    EndsQuantity (Written.membersChars qs ++ rest) := by
  cases qs <;> exact ⟨rfl, rfl⟩

theorem skipBlank_cons {c : Char} (hc : isBlank c = false) (hslash : c ≠ '/') :
    skipBlank ⟨c :: cs, p⟩ = .ok ⟨c :: cs, p⟩ :=
  skipBlank_cons_of_ne hc (startsComment_eq_false hslash cs)

/-- Where the end of a set is due, the set is read. -/
theorem members_close (line : Nat) (rest : List Char) (p : Position) :
    members line '}' [] ⟨'}' :: rest, p⟩ = .ok ([], ⟨rest, p.after '}'⟩) := by
  rw [members_of_skipBlank (skipBlank_cons rfl (by decide))]
  rfl

/-- Where a member is due, it is read, and then what stands behind it. -/
theorem members_quantity (line : Nat) {c : Cursor} (q : Quantity) (qs : List Quantity)
    (h : skipBlank c = .ok ⟨q.chars ++ (Written.membersChars qs ++ rest), p⟩) :
    members line '}' [] c =
      match membersAfter line '}' [] ⟨Written.membersChars qs ++ rest, p.advance q.chars⟩ with
      | .error e => .error e
      | .ok (ms, e) => .ok (q.scalar :: ms, e) := by
  have hscalar := scalar_quantity (p := p) "set member" [',', '}', '}', ')'] q
    (endsQuantity_membersChars qs rest)
  have hquote : q.chars ++ (Written.membersChars qs ++ rest) =
      '"' :: (q.value.chars ++ '"' :: (Quantity.unitChars q.unit ++
        (Written.membersChars qs ++ rest))) := by
    simp [Quantity.chars, Quotable.quoted]
  rw [members_of_skipBlank h, hscalar, hquote]
  rfl

/-- The members of a set read back in their order, up to the closing brace. -/
theorem membersAfter_chars (line : Nat) (qs : List Quantity) (rest : List Char) (p : Position) :
    membersAfter line '}' [] ⟨Written.membersChars qs ++ rest, p⟩ =
      .ok (qs.map Quantity.scalar, ⟨rest, p.advance (Written.membersChars qs)⟩) := by
  induction qs generalizing p with
  | nil =>
    rw [Written.membersChars, List.cons_append, membersAfter_of_skipBlank
      (skipBlank_cons rfl (by decide))]
    exact members_close line rest p
  | cons q qs ih =>
    have hspace : skipBlank ⟨' ' :: (q.chars ++ (Written.membersChars qs ++ rest)), p.after ','⟩ =
        .ok ⟨q.chars ++ (Written.membersChars qs ++ rest), (p.after ',').after ' '⟩ := by
      rw [skipBlank_cons_blank (by decide)]
      exact skipBlank_cons rfl (by decide)
    simp only [Written.membersChars, List.cons_append, List.append_assoc]
    rw [membersAfter_of_skipBlank (skipBlank_cons rfl (by decide))]
    simp only [Cursor.drop_one, if_true]
    rw [members_quantity line q qs hspace, ih]
    simp only [List.map_cons, Position.advance_cons, Position.advance_append]

/-! ## Statements -/

/-- A value reads back as it was written. -/
theorem value_written (keyword : String) (v : Written) (h : EndsQuantity rest) :
    value keyword ⟨v.chars ++ rest, p⟩ = .ok (v.value, ⟨rest, p.advance v.chars⟩) := by
  match v with
  | .single q =>
    have hscalar : value keyword ⟨q.chars ++ rest, p⟩ =
        (scalar keyword [] ⟨q.chars ++ rest, p⟩).map fun x => (.scalar x.1, x.2) := rfl
    rw [Written.chars, hscalar, scalar_quantity keyword [] q h]
    rfl
  | .set [] =>
    have hmembers := members_close p.line rest (p.after '{')
    rw [Written.chars, value]
    simp only [List.cons_append, List.nil_append, decide_true, Bool.true_or, if_true,
      Cursor.drop_one, closer, hmembers]
    rfl
  | .set (q :: qs) =>
    have hskip : skipBlank ⟨q.chars ++ (Written.membersChars qs ++ rest), p.after '{'⟩ =
        .ok ⟨q.chars ++ (Written.membersChars qs ++ rest), p.after '{'⟩ :=
      skipBlank_cons rfl (by decide)
    have hmembers := members_quantity p.line q qs hskip
    rw [membersAfter_chars] at hmembers
    rw [Written.chars, value]
    simp only [List.cons_append, List.append_assoc, decide_true, Bool.true_or, if_true,
      Cursor.drop_one, closer, hmembers]
    simp only [Except.map, Written.value, List.map_cons, Position.advance_cons,
      Position.advance_append]

/-- The value is found behind the one space. -/
theorem toValue_written (keyword : String) (line : Nat) (v : Written) (rest : List Char)
    (p : Position) :
    toValue keyword line ⟨' ' :: (v.chars ++ rest), p⟩ = .ok ⟨v.chars ++ rest, p.after ' '⟩ := by
  have hstart : endsSpace (v.chars ++ rest) = true ∧ endsLine (v.chars ++ rest) = false := by
    rcases v with q | _ | ⟨q, qs⟩ <;> exact ⟨rfl, rfl⟩
  rw [toValue, skipSpace_cons_space, skipSpace_eq_self hstart.1]
  simp only [hstart.2, Bool.false_eq_true, if_false]

/-- Skipping stops at a keyword. -/
theorem skipBlank_keyword (k : Keyword) (hstar : rest.head? ≠ some '*') :
    skipBlank ⟨k.chars ++ rest, p⟩ = .ok ⟨k.chars ++ rest, p⟩ := by
  obtain ⟨chars, hne, hblank, -, hcomment⟩ := k
  obtain ⟨c, cs, rfl⟩ := List.exists_cons_of_ne_nil hne
  exact skipBlank_cons_of_ne (hblank c List.mem_cons_self) (startsComment_append hcomment hstar)

/-- The body of an assignment reads back as its value. -/
theorem body?_written (keyword : String) (pos : Position) (v : Written) (h : EndsQuantity rest) :
    Statement.body? keyword pos ⟨'=' :: ' ' :: (v.chars ++ rest), p⟩ =
      .ok (some (⟨keyword, some v.value, pos⟩, ⟨rest, p.advance ('=' :: ' ' :: v.chars)⟩)) := by
  have hequals : startsWith '=' ('=' :: ' ' :: (v.chars ++ rest)) = true := rfl
  rw [Statement.body?]
  simp only [hequals, if_true, Cursor.drop_one, toValue_written, value_written _ v h,
    Position.advance_cons]

/-- An assignment reads back as the statement it was written from, at its own position. -/
theorem next?_assignment (k : Keyword) (v : Written) (h : EndsQuantity rest) :
    Statement.next? ⟨assignment k v ++ rest, p⟩ =
      .ok (some (⟨k.text, some v.value, p⟩, ⟨rest, p.advance (assignment k v)⟩)) := by
  have hassignment : assignment k v ++ rest = k.chars ++ ' ' :: '=' :: ' ' :: (v.chars ++ rest) := by
    simp [assignment]
  have hne : (k.chars ++ ' ' :: '=' :: ' ' :: (v.chars ++ rest)).isEmpty = false := by
    simp
  have hkeyword := takeUntil_keyword (' ' :: '=' :: ' ' :: (v.chars ++ rest)) p
    k.noBlank k.noEquals k.noComment rfl (by simp)
  have hspace (q : Position) (cs : List Char) :
      skipSpace ⟨' ' :: '=' :: cs, q⟩ = ⟨'=' :: cs, q.after ' '⟩ := rfl
  rw [hassignment, Statement.next?, skipBlank_keyword k (by simp)]
  simp only [hne, hkeyword, List.isEmpty_eq_false_iff.mpr k.ne_nil, Bool.false_eq_true, if_false,
    hspace, body?_written _ _ v h, assignment, Position.advance_append, Position.advance_cons]
  rfl

/-! ## All statements -/

/-- The statements of a text, one step at a time. -/
theorem statements_eq (c : Cursor) : Odl.statements c =
    match Statement.next? c with
    | .error e => ([], some e)
    | .ok none => ([], none)
    | .ok (some (s, d)) => (s :: (Odl.statements d).1, (Odl.statements d).2) := by
  rw [Odl.statements]
  split <;> rename_i h <;> simp only [h]

/-- Blanks and comments in front make no difference. -/
theorem statements_congr {c d : Cursor} (h : skipBlank c = skipBlank d) :
    Odl.statements c = Odl.statements d := by
  have hnext : Statement.next? c = Statement.next? d := by
    rw [Statement.next?, Statement.next?, h]
  rw [statements_eq c, statements_eq d, hnext]

theorem endsQuantity_gap (g : Gap) (rest : List Char) : EndsQuantity (g.chars ++ rest) :=
  ⟨rfl, rfl⟩

/-- A statement and the gap behind it are read, and what stands behind them. -/
theorem statements_assignment (k : Keyword) (v : Written) (g : Gap) (rest : List Char)
    (p : Position) : statements ⟨assignment k v ++ (g.chars ++ rest), p⟩ =
      (⟨k.text, some v.value, p⟩ ::
        (statements ⟨rest, p.advance (assignment k v ++ g.chars)⟩).1,
        (statements ⟨rest, p.advance (assignment k v ++ g.chars)⟩).2) := by
  rw [statements_eq, next?_assignment k v (endsQuantity_gap g rest), Position.advance_append]
  simp only [statements_congr (skipBlank_gap g rest _)]

namespace Body

/-- The statements of a body that starts at a position. -/
def statements : Position → Body → List Statement
  | _, done => []
  | p, statement k v gap next =>
    ⟨k.text, some v.value, p⟩ ::
      next.statements (p.advance (assignment k.toKeyword v ++ gap.chars))
  | p, block kind name gap inner gapBehind next =>
    let inside := p.advance (openingChars kind name ++ gap.chars)
    let closing := inside.advance inner.chars
    let behind := closing.advance (closingChars kind name ++ gapBehind.chars)
    let named := some (Written.single ⟨name, none⟩).value
    ⟨kind.openingKeyword.text, named, p⟩ ::
      (inner.statements inside ++
        (⟨kind.closingKeyword.text, named, closing⟩ :: next.statements behind))

end Body

/-- A body's statements come first, and what follows is read from behind it. -/
theorem statements_body (b : Body) (rest : List Char) (p : Position) :
    statements ⟨b.chars ++ rest, p⟩ =
      (b.statements p ++ (statements ⟨rest, p.advance b.chars⟩).1,
        (statements ⟨rest, p.advance b.chars⟩).2) := by
  induction b generalizing rest p with
  | done => rfl
  | statement k v gap next ih =>
    simp only [Body.chars, List.append_assoc]
    rw [statements_assignment, ih]
    simp only [Body.statements, List.cons_append, Position.advance_append]
  | block kind name gap inner gapBehind next ihInner ihNext =>
    simp only [Body.chars, Body.openingChars, Body.closingChars, List.append_assoc]
    rw [statements_assignment, ihInner, statements_assignment, ihNext]
    simp only [Body.statements, Body.openingChars, Body.closingChars, List.cons_append,
      List.append_assoc, Position.advance_append]

/-- The keyword of the last line. -/
def endKeyword : Keyword :=
  ⟨"END".toList, by decide, by simp [isBlank], by decide, by decide⟩

/-- Nothing is read from an ending, written out or left off. -/
theorem statements_ending (e : Ending) (p : Position) : statements ⟨e.chars, p⟩ = ([], none) := by
  have hnext : Statement.next? ⟨e.chars, p⟩ = .ok none := by
    cases e with
    | nothing => rfl
    | stop behind =>
      have hkeyword := takeUntil_keyword ('\n' :: behind) p
        endKeyword.noBlank endKeyword.noEquals endKeyword.noComment rfl (by simp)
      have hchars : (Ending.stop behind).chars = endKeyword.chars ++ '\n' :: behind := rfl
      rw [hchars, Statement.next?, skipBlank_keyword endKeyword (by simp)]
      simp only [hkeyword]
      rfl
  rw [statements_eq, hnext]

/-! ## The tree -/

theorem Body.length_nodes (b : Body) (parent first : Nat) (p : Position) :
    (b.nodes parent first p).length = b.size := by
  induction b generalizing parent first p with
  | done => rfl
  | statement k v gap next ih => rw [nodes, List.length_append, List.length_map, ih, size]
  | block kind name gap inner gapBehind next ihInner ihNext =>
    simp only [nodes, List.length_cons, List.length_append, ihInner, ihNext, size]
    omega

/-- A statement with a plain keyword and a value concerns no block. -/
theorem plain_assignment (k : PlainKeyword) (v : Value) (p : Position) :
    Statement.Plain ⟨k.text, some v, p⟩ := by
  have h := k.noBlock
  simp only [List.mem_cons, List.not_mem_nil, or_false, not_or] at h
  refine ⟨fun kind => ?_, Option.some_ne_none _⟩
  cases kind with
  | object => exact ⟨h.1, h.2.2.1⟩
  | group => exact ⟨h.2.1, h.2.2.2⟩

theorem nodes_assignment (k : PlainKeyword) (v : Written) (p : Position) (parent : Nat) :
    Statement.nodes ⟨k.text, some v.value, p⟩ parent =
      v.quantities.map (Body.valueNode k.toKeyword p parent) := by
  have hrole : role k.text = .plain := role_eq_plain_iff.mpr (plain_assignment k v.value p).1
  have hnode (v : Option Value) (q : Quantity) :
      Statement.valueNode ⟨k.text, v, p⟩ parent q.scalar =
        Body.valueNode k.toKeyword p parent q := by
    obtain ⟨value, _ | u⟩ := q <;> rfl
  cases v <;> simp [Statement.nodes, hrole, Written.value, Written.quantities, hnode]

namespace Nesting

/-- A plain assignment adds one node for each of its quantities. -/
theorem add_statement (n : Nesting) (k : PlainKeyword) (v : Written) (p : Position) :
    n.add ⟨k.text, some v.value, p⟩ =
      .ok (n.withNodes (v.quantities.map (Body.valueNode k.toKeyword p n.parent))) := by
  rw [add_plain n (plain_assignment k v.value p), nodes_assignment]

/-- The closing line of a block leads back to the nesting before it, with the block's nodes. -/
theorem add_closing (n : Nesting) (kind : BlockKind) (name : Quotable) (p q : Position)
    (ns : List Node) :
    ((n.openBlock kind (String.ofList name.chars) p).withNodes ns).add
        ⟨kind.closingKeyword.text, some (Written.single ⟨name, none⟩).value, q⟩ =
      .ok (n.withNodes (Body.blockNode kind name p n.parent :: ns)) := by
  have hclosed : ((n.openBlock kind (String.ofList name.chars) p).withNodes ns).closeBlock kind
      (some (String.ofList name.chars)) q.line =
      .ok ((n.withNodes [Body.blockNode kind name p n.parent]).withNodes ns) := by
    rw [withNodes_singleton]
    simp only [closeBlock, withNodes, openBlock, ne_eq, not_true_eq_false, if_false]
    rfl
  rw [withNodes_withNodes] at hclosed
  cases kind <;> exact hclosed

/-- Adding a body's statements adds the body's nodes, under the parent and from the number next
free. -/
theorem addAll_body (n : Nesting) (b : Body) (p : Position) :
    n.addAll (b.statements p) = .ok (n.withNodes (b.nodes n.parent n.tree.size p)) := by
  induction b generalizing n p with
  | done => rw [Body.nodes, withNodes_nil]; rfl
  | statement k v gap next ih =>
    rw [Body.statements, addAll_cons (n.add_statement k v p), ih, Body.nodes]
    simp only [withNodes_withNodes, parent_withNodes, size_withNodes, List.length_map]
  | block kind name gap inner gapBehind next ihInner ihNext =>
    have hopen : n.add ⟨kind.openingKeyword.text, some (Written.single ⟨name, none⟩).value, p⟩ =
        .ok (n.openBlock kind (String.ofList name.chars) p) := by
      cases kind <;> rfl
    -- The node of the block comes first and is the parent inside; closing the block leaves `n` with
    -- more nodes, so that the statements behind it have the parent they had before.
    have hsize : (n.openBlock kind (String.ofList name.chars) p).tree.size = n.tree.size + 1 := by
      simp [openBlock, Tree.push, Tree.size]
    have hparent : (n.openBlock kind (String.ofList name.chars) p).parent = n.tree.size := rfl
    have hnumber : n.tree.size + (inner.size + 1) = n.tree.size + 1 + inner.size := by
      omega
    rw [Body.statements, addAll_cons hopen, addAll_append (ihInner ..),
      addAll_cons (add_closing ..), ihNext, Body.nodes]
    simp only [withNodes_withNodes, parent_withNodes, size_withNodes, List.length_cons,
      Body.length_nodes, List.cons_append, Position.advance_append, hsize, hparent, hnumber]

end Nesting

/-- **Reading undoes writing.** Whatever the nesting, the separators and the text behind the end
are, the tree read has the nodes of the body in order and with their parents. -/
theorem readLabel_written (b : Body) (e : Ending) :
    readLabel (String.ofList (b.chars ++ e.chars)) = .ok b.tree := by
  have hstatements : statements (.ofString (String.ofList (b.chars ++ e.chars))) =
      (b.statements .start, none) := by
    rw [Cursor.ofString, String.toList_ofList, Cursor.ofChars, statements_body, statements_ending,
      List.append_nil]
  have htree : (Nesting.empty.withNodes (b.nodes 0 1 .start)).finish = .ok b.tree := by
    simp [Nesting.finish, Nesting.withNodes, Nesting.empty, Body.tree, rootNode, Tree.singleton]
  rw [readLabel, hstatements, ← htree]
  simp only [Nesting.addAll_body]
  rfl

end ArchiveLabels.Odl
