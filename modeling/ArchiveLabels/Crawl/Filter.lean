import ArchiveLabels.Label.Dialect
import ArchiveLabels.Wildcard.Collection

/-!
# Which names to take

A crawl takes files and enters directories by their names. A list of wildcards for names to take
stands alone; names to leave out only count without it.
-/

namespace ArchiveLabels

open Label

/-- Which names to take. -/
inductive NameFilter where
  /-- All. -/
  | all
  /-- Those that a wildcard stands for. -/
  | only (ws : List Wildcard)
  /-- Those that no wildcard stands for. -/
  | allBut (ws : List Wildcard)

namespace NameFilter

/-- The filter of a list of names to take and a list of names to leave out. -/
def ofLists (included excluded : List String) : Except WildcardError NameFilter :=
  if !included.isEmpty then (Wildcard.parseAll included).map only
  else if !excluded.isEmpty then (Wildcard.parseAll excluded).map allBut
  else .ok all

/-- The name is to be taken. -/
def accepts : NameFilter → String → Bool
  | all, _ => true
  | only ws, name => Wildcard.anyAccepts ws name
  | allBut ws, name => !Wildcard.anyAccepts ws name

end NameFilter

/-- Which files to take and which directories to enter. -/
structure Filters where
  /-- The names of files. -/
  files : NameFilter
  /-- The names of directories. -/
  directories : NameFilter

namespace Filters

/-- The filters of lists of wildcards. -/
def ofLists (includedFiles excludedFiles excludedDirectories : List String) :
    Except WildcardError Filters := do
  let files ← NameFilter.ofLists includedFiles excludedFiles
  let directories ← NameFilter.ofLists [] excludedDirectories
  return ⟨files, directories⟩

/-- The file is to be taken for a label of the given dialect. -/
def acceptsFile (f : Filters) (p : Path) (d : Dialect) : Bool :=
  Dialect.ofPath? p == some d && f.files.accepts (p.fileName?.getD "")

/-- The directory is to be entered. -/
def acceptsDirectory (f : Filters) (p : Path) : Bool :=
  f.directories.accepts (p.fileName?.getD "")

end Filters

end ArchiveLabels
