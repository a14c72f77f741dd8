import ArchiveLabels.Label.Tree
import ArchiveLabels.Policy
import ArchiveLabels.Record.Basic
import ArchiveLabels.Record.Problem
import ArchiveLabels.Selector.Select

/-!
# What a label yields

A record, and the problems met while making it.
-/

namespace ArchiveLabels

open Label

/-- A record and the problems met while making it. -/
structure Extraction where
  /-- The record. -/
  record : Record
  /-- The problems. -/
  problems : List Problem
deriving DecidableEq, Repr

/-- The kinds of label that records are made of in ways of their own. -/
inductive LabelKind where
  | bundle
  | collection
  /-- Any other modern label. -/
  | generic
  /-- Any legacy label. -/
  | legacy
deriving DecidableEq, Repr

namespace LabelKind

/-- The kind of a label of the given dialect that declares the given kind of product. -/
def classify (dialect : Dialect) (objectType : String) : LabelKind :=
  match dialect with
  | .legacy => legacy
  | .modern =>
    if objectType = "Product_Bundle" then bundle
    else if objectType = "Product_Collection" then collection
    else generic

/-- The name of a kind. -/
def name : LabelKind → String
  | bundle => "bundle"
  | collection => "collection"
  | generic => "generic"
  | legacy => "legacy"

end LabelKind

namespace Label.Tree

/-- The non-empty values of nodes, each with its line. -/
def entries (t : Tree) (nodes : List Nat) : List (String × Nat) :=
  (nodes.filter fun i => t.value i ≠ "").map fun i => (t.value i, (t.pos i).line)

/-- The problem of the given kind at node `i`. -/
def problemAt (t : Tree) (i : Nat) (kind : ProblemKind) (message source : String) : Problem :=
  (Problem.ofKind kind message source).atPosition (t.pos i)

end Label.Tree

namespace Rule

/-- The slot that the rule fills from a label; none if it finds no values. -/
def slot? (r : Rule) (t : Tree) : Option Slot :=
  match r.selector.selectAll t with
  | [] => none
  | first :: rest =>
    (Slot.ofEntries? (r.name.getD (t.name first)) (t.entries (first :: rest))).map fun s =>
      { s with unit := r.unitAttribute.bind (t.node first).attribute? }

end Rule

end ArchiveLabels
