import ArchiveLabels.Text.Blank
import ArchiveLabels.Text.Cursor
import ArchiveLabels.Label.Dialect

/-!
# Label trees

A label of either dialect is read into a `Tree` : its nodes in document order, each with the number
of its parent. A reader only ever adds a node under the last node or one of its ancestors, so the
nodes below a node follow it without a gap (`Tree.descendants`).
-/

namespace ArchiveLabels.Label

open Text

/-- An element of a modern label; a statement, set member or block of a legacy one. -/
structure Node where
  /-- The local name. -/
  name : String
  /-- The namespace of the name, if one is in scope. -/
  space : Option String
  /-- Attributes under their local names. -/
  attributes : List (String × String)
  /-- The text directly in the node, untrimmed. -/
  text : Option String
  /-- Where the node starts. -/
  pos : Position
  /-- The number of the node around this one. -/
  parent : Option Nat
deriving DecidableEq, Repr, Inhabited

namespace Node

/-- The trimmed text of a node, empty if it has none. -/
def value (n : Node) : String :=
  trim (n.text.getD "")

/-- The first attribute of the given local name. -/
def attribute? (n : Node) (name : String) : Option String :=
  n.attributes.lookup name

end Node

/-- The nodes of a label in document order. -/
structure Tree where
  /-- What kind of label was read. -/
  dialect : Dialect
  /-- The nodes; a node's number is its place here. -/
  nodes : Array Node
deriving DecidableEq, Repr

namespace Tree

/-- The tree of one node. -/
def singleton (dialect : Dialect) (root : Node) : Tree :=
  ⟨dialect, #[root]⟩

/-- How many nodes there are. -/
def size (t : Tree) : Nat := t.nodes.size

/-- Adds a node at the end. -/
def push (t : Tree) (n : Node) : Tree :=
  { t with nodes := t.nodes.push n }

/-- The node of the given number. -/
def node (t : Tree) (i : Nat) : Node :=
  t.nodes.getD i default

/-- The number of the node around node `i`. -/
def parent? (t : Tree) (i : Nat) : Option Nat :=
  (t.node i).parent

/-- The numbers of the nodes whose parent is node `i`, in document order. -/
def children (t : Tree) (i : Nat) : List Nat :=
  (List.range t.size).filter fun j => (t.node j).parent == some i

/-- The numbers of the nodes at any depth below node `i` : the nodes that follow it, as long as
their parents do not come before it. -/
def descendants (t : Tree) (i : Nat) : List Nat :=
  (List.range' (i + 1) (t.size - (i + 1))).takeWhile fun j =>
    match t.parent? j with
    | some p => i ≤ p
    | none => false

/-- The numbers of all nodes in document order. -/
def all (t : Tree) : List Nat :=
  List.range t.size

/-- The local name of node `i`. -/
def name (t : Tree) (i : Nat) : String := (t.node i).name

/-- The trimmed text of node `i`. -/
def value (t : Tree) (i : Nat) : String := (t.node i).value

/-- Where node `i` starts. -/
def pos (t : Tree) (i : Nat) : Position := (t.node i).pos

/-- The first child of node `i` with the given local name. -/
def child? (t : Tree) (i : Nat) (name : String) : Option Nat :=
  (t.children i).find? fun j => t.name j == name

/-- The trimmed text of the first child of node `i` with the given local name. -/
def childValue? (t : Tree) (i : Nat) (name : String) : Option String :=
  (t.child? i name).map t.value

end Tree

end ArchiveLabels.Label
