import ArchiveLabels.Policy

/-!
# What to leave out

Products that a crawl leaves out are known by their identifiers, files by their absolute paths.
-/

namespace ArchiveLabels

/-- What to leave out, besides what the policy says. -/
structure Exclusions where
  /-- Identifiers of products, none twice. -/
  nonPrimary : List Identifier
  /-- Absolute paths of files. -/
  claimed : List Path
deriving DecidableEq, Repr

namespace Exclusions

/-- Nothing. -/
def empty : Exclusions := ⟨[], []⟩

/-- Leaves out a product. -/
def add (e : Exclusions) (i : Identifier) : Exclusions :=
  if i ∈ e.nonPrimary then e else { e with nonPrimary := e.nonPrimary ++ [i] }

/-- Leaves out a file. -/
def claim (e : Exclusions) (cwd p : Path) : Exclusions :=
  { e with claimed := e.claimed ++ [Path.absolute cwd p] }

/-- The file is left out. -/
def isClaimed (e : Exclusions) (cwd p : Path) : Bool :=
  e.claimed.contains (Path.absolute cwd p)

/-- Leaves out also what `f` leaves out. -/
def merge (e f : Exclusions) : Exclusions :=
  let e := f.nonPrimary.foldl add e
  { e with claimed := e.claimed ++ f.claimed }

/-- The product is left out, here or by the policy. -/
def excludes (e : Exclusions) (p : Policy) (i : Identifier) : Bool :=
  (p.nonPrimaryMembers ++ e.nonPrimary).any fun entry => entry.covers i

end Exclusions

end ArchiveLabels
