import ArchiveLabels.Label.Tree
import ArchiveLabels.Selector.Basic
import ArchiveLabels.Selector.Pattern

/-!
# What a selector picks

A step leads from places to places, where a place is a node of the label or the document above its
root. After every step the places are put into document order, each once, so that `Selector.select`
gives the nodes picked in document order and without repetition.
-/

namespace ArchiveLabels

open Label

/-- Where the evaluation of a selector stands. -/
inductive Place where
  /-- Above the root. -/
  | document
  /-- At a node. -/
  | node (i : Nat)
deriving DecidableEq, Repr

namespace Place

/-- The place in document order. -/
def rank : Place → Nat
  | document => 0
  | node i => i + 1

/-- The number of the node at a place. -/
def node? : Place → Option Nat
  | document => none
  | node i => some i

/-- The places in document order, each once. -/
def inOrder (ps : List Place) : List Place :=
  (ps.mergeSort fun p q => p.rank ≤ q.rank).eraseReps

/-- The nodes that an axis leads to. -/
def below (t : Tree) (axis : Axis) : Place → List Nat
  | document =>
    match axis with
    | .child => [0]
    | .descendant => t.all
  | node i =>
    match axis with
    | .child => t.children i
    | .descendant => t.descendants i

/-- The place around a place, if there is one. -/
def around (t : Tree) : Place → List Place
  | document => []
  | node i =>
    match t.parent? i with
    | some p => [.node p]
    | none => [.document]

end Place

namespace NameTest

/-- The node passes the test. -/
def accepts (n : NameTest) (node : Node) : Bool :=
  (n.space.isNone || node.space == n.space) && Selector.matchesName n.pattern node.name

end NameTest

namespace ChildTest

/-- Some child of node `i` has the name and the value. -/
def accepts (c : ChildTest) (t : Tree) (i : Nat) : Bool :=
  (t.children i).any fun j => t.name j == c.child && t.value j == c.value

end ChildTest

namespace Step

/-- The places that a step leads to from a place. -/
def apply (t : Tree) (p : Place) : Step → List Place
  | here => [p]
  | up => p.around t
  | down axis name test =>
    ((p.below t axis).filter fun i => name.accepts (t.node i) && test.all (·.accepts t i)).map .node

end Step

namespace Branch

/-- The places that a branch leads to from the node `context`. -/
def evaluate (b : Branch) (t : Tree) (context : Nat) : List Place :=
  b.steps.foldl (fun ps s => Place.inOrder (ps.flatMap fun p => s.apply t p))
    [if b.absolute then .document else .node context]

end Branch

namespace Selector

/-- The nodes picked from the node `context`, in document order. -/
def select (s : Selector) (t : Tree) (context : Nat) : List Nat :=
  (Place.inOrder (s.branches.flatMap fun b => b.evaluate t context)).filterMap Place.node?

/-- The nodes picked from the root. -/
def selectAll (s : Selector) (t : Tree) : List Nat :=
  s.select t 0

/-- The value of the first node picked, unless it is empty. -/
def firstValue? (s : Selector) (t : Tree) (context : Nat) : Option String :=
  ((s.select t context).head?.map t.value).filter (· ≠ "")

/-- The values of the nodes picked, without the empty ones. -/
def values (s : Selector) (t : Tree) (context : Nat) : List String :=
  ((s.select t context).map t.value).filter (· ≠ "")

end Selector

end ArchiveLabels
