import ArchiveLabels.Odl.Statements
import ArchiveLabels.Label.Tree

/-!
# From statements to a label tree

`Nesting.add` puts one statement into the tree under construction, keeping track of the open blocks;
`readLabel` does so for all statements of a text. The root is a node of its own around the whole
label.
-/

namespace ArchiveLabels.Odl

open Text Label

/-- A block that is open. -/
structure OpenBlock where
  /-- Whether it is an object or a group. -/
  kind : BlockKind
  /-- Its name. -/
  name : String
  /-- The line it starts in. -/
  line : Nat
  /-- The number of its node. -/
  node : Nat
deriving DecidableEq, Repr

/-- A tree under construction. -/
structure Nesting where
  /-- The nodes so far. -/
  tree : Tree
  /-- The open blocks, innermost first. -/
  blocks : List OpenBlock

namespace Nesting

/-- The tree of a label without statements. -/
def empty : Nesting where
  tree := .singleton .legacy ⟨"LABEL", none, [], none, .start, none⟩
  blocks := []

/-- The node that the next statement belongs to : the innermost open block, or else the root. -/
def parent (n : Nesting) : Nat :=
  match n.blocks with
  | [] => 0
  | b :: _ => b.node

/-- Adds the node of a value. -/
def addScalar (n : Nesting) (keyword : String) (pos : Position) (s : Scalar) : Nesting :=
  { n with
    tree := n.tree.push
      ⟨keyword, none, s.unit.toList.map fun u => ("unit", u), some s.text, pos, some n.parent⟩ }

/-- Opens a block. -/
def openBlock (n : Nesting) (kind : BlockKind) (name : String) (pos : Position) : Nesting where
  tree := n.tree.push ⟨name, none, [("kind", kind.opening)], none, pos, some n.parent⟩
  blocks := ⟨kind, name, pos.line, n.tree.size⟩ :: n.blocks

/-- Closes the innermost block, which has to be of the given kind and of the given name if there is
one. -/
def closeBlock (n : Nesting) (kind : BlockKind) (name : Option String) (line : Nat) :
    Except Fault Nesting :=
  match n.blocks with
  | [] => .error ⟨.closesNothing kind, line⟩
  | b :: bs =>
    if b.kind ≠ kind then .error ⟨.closesOther kind b.kind b.name b.line, line⟩
    else
      match name with
      | none => .ok { n with blocks := bs }
      | some given =>
        if given ≠ b.name then .error ⟨.closesMisnamed kind given b.name b.line, line⟩
        else .ok { n with blocks := bs }

/-- Puts a statement into the tree. -/
def add (n : Nesting) (s : Statement) : Except Fault Nesting :=
  match role s.keyword, s.value with
  | .opens kind, some (.scalar name) => .ok (n.openBlock kind name.text s.pos)
  | .closes kind, some (.scalar name) => n.closeBlock kind (some name.text) s.pos.line
  | .closes kind, none => n.closeBlock kind none s.pos.line
  | .plain, some (.scalar v) => .ok (n.addScalar s.keyword s.pos v)
  | .plain, some (.set vs) => .ok (vs.foldl (fun n v => n.addScalar s.keyword s.pos v) n)
  | _, some (.set _) => .error ⟨.nameNotSingle s.keyword, s.pos.line⟩
  | _, none => .error ⟨.missingEquals s.keyword, s.pos.line⟩

/-- Puts a list of statements into the tree. -/
def addAll (n : Nesting) : List Statement → Except Fault Nesting
  | [] => .ok n
  | s :: ss =>
    match n.add s with
    | .error e => .error e
    | .ok n => n.addAll ss

/-- The finished tree; no block may be open. -/
def finish (n : Nesting) : Except Fault Tree :=
  match n.blocks with
  | [] => .ok n.tree
  | b :: _ => .error ⟨.neverClosed b.kind b.name, b.line⟩

end Nesting

/-- Reads a legacy label. The fault reported is the first one in the text. -/
def readLabel (text : String) : Except Fault Tree :=
  let (ss, fault) := statements (.ofString text)
  match Nesting.empty.addAll ss with
  | .error e => .error e
  | .ok n =>
    match fault with
    | some e => .error e
    | none => n.finish

end ArchiveLabels.Odl
