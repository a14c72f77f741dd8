import ArchiveLabels.Label.Reading
import ArchiveLabels.Proofs.Label.PreOrder
import ArchiveLabels.Proofs.Odl.Steps

/-!
# Every label is read into a tree in document order

A legacy label has a root around all its blocks, so that some node is open from the first statement
to the last. A modern label has none : here it takes the reader of tokens to say that no tag starts
behind the outermost element (`Xml.Elements.Stands`), as it would have no parent. The trees of both
readers are in document order (`Label.Tree.preOrder_of_ofText`).
-/

namespace ArchiveLabels

open Text Label

/-! ## Legacy labels -/

namespace Odl.Nesting

variable {n m : Nesting} {s : Statement} {pos : Position}

/-- The nodes of the open blocks, innermost first, and the root. -/
def openNodes (n : Nesting) : List Nat :=
  n.blocks.map OpenBlock.node ++ [0]

/-- The open blocks are a spine of the tree. -/
def Grown (n : Nesting) : Prop :=
  n.tree.Spine n.openNodes

theorem grown_empty : empty.Grown :=
  .first (t := ⟨.legacy, #[]⟩) rfl rfl

theorem openNodes_ne_nil (n : Nesting) : n.openNodes ≠ [] := by
  simp [openNodes]

/-- The parent is the innermost open node. -/
theorem head?_openNodes (n : Nesting) : n.openNodes.head? = some n.parent := by
  obtain ⟨tree, _ | ⟨b, bs⟩⟩ := n <;> rfl

namespace Grown

variable (h : n.Grown)
include h

/-- A value below the innermost block keeps the nesting grown. -/
theorem addScalar (keyword : String) (pos : Position) (v : Scalar) :
    (n.addScalar keyword pos v).Grown :=
  h.push_closed n.openNodes_ne_nil n.head?_openNodes.symm

theorem openBlock (kind : BlockKind) (name : String) (pos : Position) :
    (n.openBlock kind name pos).Grown :=
  h.push n.openNodes_ne_nil n.head?_openNodes.symm

theorem closeBlock {kind : BlockKind} {name : Option String} {line : Nat}
    (hm : n.closeBlock kind name line = .ok m) : m.Grown := by
  obtain ⟨b, bs, hblocks, -, -, rfl⟩ := exists_of_closeBlock hm
  have hspine : n.tree.Spine (b.node :: openNodes ⟨n.tree, bs⟩) := by
    rw [Grown, openNodes, hblocks] at h
    exact h
  exact Tree.Spine.tail hspine (openNodes_ne_nil ⟨n.tree, bs⟩)

/-- One statement keeps the nesting grown, whichever it is. -/
theorem add (hm : n.add s = .ok m) : m.Grown := by
  unfold Nesting.add at hm
  split at hm
  case h_1 => cases hm; exact h.openBlock ..
  case h_2 => exact h.closeBlock hm
  case h_3 => exact h.closeBlock hm
  case h_4 => cases hm; exact h.addScalar ..
  case h_5 vs _ _ =>
    cases hm
    exact List.foldlRecOn vs _ h fun _ hn v _ => hn.addScalar ..
  all_goals cases hm

end Grown

/-- Statements keep the nesting grown, by induction on them. -/
theorem Grown.addAll {ss : List Statement} (h : n.Grown) (hm : n.addAll ss = .ok m) : m.Grown := by
  induction ss generalizing n with
  | nil =>
    cases hm
    exact h
  | cons s ss ih =>
    rw [Nesting.addAll] at hm
    split at hm
    · cases hm
    · rename_i hs
      exact ih (h.add hs) hm

end Odl.Nesting

/-- The nodes of a label that was read are numbered in document order. -/
theorem Odl.preOrder_of_readLabel {text : String} {t : Tree} (h : readLabel text = .ok t) :
    t.PreOrder := by
  unfold readLabel at h
  simp only at h
  split at h
  · cases h
  · rename_i n hn
    have hgrown := Nesting.grown_empty.addAll hn
    split at h
    · cases h
    · unfold Nesting.finish at h
      split at h
      · cases h
        exact hgrown.preOrder
      · cases h

/-! ## The phases of a modern label -/

namespace Xml

variable {phase phase' : Phase} {c d : Cursor} {k? : Option Token}

/-- What a piece of a modern label can be in a phase, and the phase behind it. -/
inductive Follows : Phase → Option Token → Phase → Prop
  /-- A piece that gives no token. -/
  | nothing (phase : Phase) : Follows phase none phase
  /-- Text inside an element. -/
  | text (depth : Nat) (s : String) : Follows (.content depth) (some (.text s)) (.content depth)
  /-- A tag, which starts no second outermost element. -/
  | start {phase : Phase} (h : phase ≠ .epilog) (t : Tag) :
    Follows phase (some (.start t)) (if t.isEmpty then phase.opened.closed else phase.opened)
  /-- The end of an element. -/
  | close (depth : Nat) (name : QName) (pos : Position) :
    Follows (.content depth) (some (.close name pos)) (Phase.content depth).closed

theorem exists_of_bind_eq_ok {α β ε : Type} {x : Except ε α} {f : α → Except ε β} {b : β}
    (h : (x >>= f) = .ok b) : ∃ a, x = .ok a ∧ f a = .ok b := by
  cases x with
  | error e => cases h
  | ok a => exact ⟨a, rfl, h⟩

/-- A start is that of a tag, and of no second outermost one, or gives nothing. -/
theorem follows_of_readStart (hphase : phase ≠ .epilog)
    (h : readStart phase c = .ok (k?, phase', d)) : Follows phase k? phase' := by
  obtain ⟨⟨t?, d'⟩, -, h⟩ := exists_of_bind_eq_ok h
  cases t? with
  | none =>
    cases h
    exact .nothing phase
  | some t =>
    cases h
    exact .start hphase t

theorem follows_of_readOutside (h : readOutside phase c = .ok (k?, phase', d)) :
    Follows phase k? phase' := by
  unfold readOutside at h
  simp only at h
  split at h
  · cases h
    exact .nothing phase
  split at h
  · obtain ⟨d', -, h⟩ := exists_of_bind_eq_ok h
    cases h
    exact .nothing phase
  split at h
  · obtain ⟨d', -, h⟩ := exists_of_bind_eq_ok h
    cases h
    exact .nothing phase
  split at h
  · cases h
  split at h
  · rename_i htag
    refine follows_of_readStart ?_ h
    rw [Bool.and_eq_true, decide_eq_true_eq] at htag
    rw [htag.1]
    exact Phase.noConfusion
  · cases h

theorem follows_of_readInside {depth : Nat}
    (h : readInside (.content depth) c = .ok (k?, phase', d)) :
    Follows (.content depth) k? phase' := by
  unfold readInside at h
  split at h
  · cases h
    exact .nothing _
  · cases h
  · split at h
    · obtain ⟨d', -, h⟩ := exists_of_bind_eq_ok h
      cases h
      exact .nothing _
    · split at h
      · obtain ⟨⟨t, d'⟩, ht, h⟩ := exists_of_bind_eq_ok h
        obtain ⟨⟨run, e⟩, -, ht⟩ := exists_of_bind_eq_ok ht
        obtain ⟨e', -, ht⟩ := exists_of_bind_eq_ok ht
        cases ht
        cases h
        exact .text depth _
      · cases h
  · obtain ⟨d', -, h⟩ := exists_of_bind_eq_ok h
    cases h
    exact .nothing _
  · obtain ⟨⟨t, d'⟩, ht, h⟩ := exists_of_bind_eq_ok h
    obtain ⟨⟨name, e⟩, -, ht⟩ := exists_of_bind_eq_ok ht
    obtain ⟨e', -, ht⟩ := exists_of_bind_eq_ok ht
    cases ht
    cases h
    exact .close depth name c.pos
  · exact follows_of_readStart Phase.noConfusion h
  · obtain ⟨⟨t, d'⟩, ht, h⟩ := exists_of_bind_eq_ok h
    obtain ⟨⟨run, e⟩, -, ht⟩ := exists_of_bind_eq_ok ht
    simp only at ht
    split at ht
    · cases ht
    · obtain ⟨value, -, ht⟩ := exists_of_bind_eq_ok ht
      cases ht
      cases h
      exact .text depth _

/-- Whatever is read follows the phase, and tells the next. -/
theorem follows_of_readPiece (h : readPiece phase c = .ok (k?, phase', d)) :
    Follows phase k? phase' := by
  cases phase with
  | prolog => exact follows_of_readOutside h
  | content depth => exact follows_of_readInside h
  | epilog => exact follows_of_readOutside h

/-! ## Modern labels -/

namespace Elements

variable {e e' : Elements} {k : Token}

/-- The tree is as far as a reader of tokens is : in the prolog there is nothing, behind it the open
elements are a spine, as many as the phase says, and in the end a tree in document order is left. -/
def Stands (e : Elements) : Phase → Prop
  | .prolog => e.tree.size = 0 ∧ e.opened = []
  | .content depth => e.tree.Spine (e.opened.map OpenElement.node) ∧ e.opened.length = depth + 1
  | .epilog => e.tree.PreOrder ∧ e.opened = []

/-- A tag keeps the elements as the phase says. -/
theorem Stands.addTag {t : Tag} (h : e.Stands phase) (hphase : phase ≠ .epilog)
    (he : e.addTag t = .ok e') :
    e'.Stands (if t.isEmpty then phase.opened.closed else phase.opened) := by
  obtain ⟨attributes, -, he⟩ := exists_of_bind_eq_ok he
  obtain ⟨space, -, he⟩ := exists_of_bind_eq_ok he
  cases he
  cases phase with
  | prolog =>
    obtain ⟨hsize, hopened⟩ := h
    have hfirst (n : Node) (hn : n.parent = none) := Tree.Spine.first hsize hn
    split
    · exact ⟨(hfirst _ (by simp [hopened])).preOrder, hopened⟩
    · simp only [Phase.opened, Stands, hopened, hsize]
      exact ⟨hfirst _ rfl, rfl⟩
  | content depth =>
    obtain ⟨hspine, hlength⟩ := h
    have hne : e.opened.map OpenElement.node ≠ [] := by
      rw [Ne, List.map_eq_nil_iff, ← List.length_eq_zero_iff]
      omega
    split
    · exact ⟨hspine.push_closed hne List.head?_map.symm, hlength⟩
    · exact ⟨hspine.push hne List.head?_map.symm, congrArg (· + 1) hlength⟩
  | epilog => exact absurd rfl hphase

/-- An end tag keeps the elements as the phase says. -/
theorem Stands.close {depth : Nat} {name : QName} {pos : Position} (h : e.Stands (.content depth))
    (he : e.close name pos = .ok e') : e'.Stands (Phase.content depth).closed := by
  obtain ⟨hspine, hlength⟩ := h
  unfold Elements.close at he
  split at he
  · cases he
  · rename_i o os hopened
    rw [hopened] at hspine hlength
    split at he
    · cases he
      cases depth with
      | zero => exact ⟨hspine.preOrder, List.length_eq_zero_iff.mp (Nat.succ.inj hlength)⟩
      | succ depth =>
        have hos : os.length = depth + 1 := Nat.succ.inj hlength
        refine ⟨hspine.tail ?_, hos⟩
        rw [Ne, List.map_eq_nil_iff, ← List.length_eq_zero_iff]
        omega
    · cases he

/-- Text leaves the parents of the nodes alone. -/
theorem Stands.addText {depth : Nat} (h : e.Stands (.content depth)) (s : String) :
    (e.addText s).Stands (.content depth) := by
  unfold Elements.addText
  split
  · exact h
  · split
    · exact h
    · refine ⟨h.1.congr (Array.size_modify ..) fun i => ?_, h.2⟩
      simp only [Tree.parent?, Label.Tree.node, Array.getD_eq_getD_getElem?, Array.getElem?_modify]
      split
      · cases e.tree.nodes[i]? <;> rfl
      · rfl

/-- One token that follows the phase keeps the elements as the next phase says. -/
theorem Stands.add (h : e.Stands phase) (hk : Follows phase (some k) phase')
    (he : e.add k = .ok e') : e'.Stands phase' := by
  cases hk with
  | text depth s =>
    cases he
    exact h.addText s
  | start hphase t => exact h.addTag hphase he
  | close depth name pos => exact h.close he

/-- All tokens keep the elements as their phases say, by induction on the fuel. -/
theorem Stands.addAll_tokensFrom {fuel : Nat} (h : e.Stands phase)
    (he : e.addAll (tokensFrom fuel phase c).1 = .ok e') : ∃ phase', e'.Stands phase' := by
  induction fuel generalizing phase c e with
  | zero =>
    cases he
    exact ⟨phase, h⟩
  | succ fuel ih =>
    rw [tokensFrom] at he
    split at he
    · cases he
      exact ⟨phase, h⟩
    · split at he
      · cases he
        exact ⟨phase, h⟩
      · rename_i k? phase' d hpiece
        have hfollows := follows_of_readPiece hpiece
        cases k? with
        | none =>
          cases hfollows
          exact ih h he
        | some k =>
          simp only [Option.toList_some, List.singleton_append, Elements.addAll] at he
          split at he
          · cases he
          · rename_i e₁ he₁
            exact ih (h.add hfollows he₁) he

theorem stands_empty : empty.Stands .prolog :=
  ⟨rfl, rfl⟩

/-- The tree is as far as the tokens are. -/
theorem exists_stands {text : String} (he : empty.addAll (tokens text).1 = .ok e) :
    ∃ phase, e.Stands phase := by
  unfold tokens at he
  simp only at he
  split at he
  · cases he
    exact ⟨_, stands_empty⟩
  · exact stands_empty.addAll_tokensFrom he

end Elements

theorem preOrder_of_readLabel {text : String} {t : Tree} (h : readLabel text = .ok t) :
    t.PreOrder := by
  unfold readLabel at h
  simp only at h
  split at h
  · cases h
  · rename_i e he
    obtain ⟨phase, hstands⟩ := Elements.exists_stands he
    split at h
    · cases h
    · unfold Elements.finish at h
      split at h
      · cases h
      · rename_i hsize
        split at h
        · cases h
          cases phase with
          | prolog => exact absurd hstands.1 hsize
          | content depth => exact hstands.1.preOrder
          | epilog => exact hstands.1
        · cases h

end Xml

/-- The trees of both dialects are in document order. -/
theorem Label.Tree.preOrder_of_ofText {d : Dialect} {text : String} {t : Tree}
    (h : Tree.ofText d text = .ok t) : t.PreOrder := by
  cases d with
  | legacy =>
    cases hread : Odl.readLabel text with
    | error e =>
      rw [ofText, hread] at h
      cases h
    | ok t' =>
      rw [ofText, hread] at h
      cases h
      exact Odl.preOrder_of_readLabel hread
  | modern =>
    cases hread : Xml.readLabel text with
    | error e =>
      rw [ofText, hread] at h
      cases h
    | ok t' =>
      rw [ofText, hread] at h
      cases h
      exact Xml.preOrder_of_readLabel hread

end ArchiveLabels
