import ArchiveLabels.Path
import ArchiveLabels.Text.Fold

/-!
# Label dialects

A label is of one of two dialects; the extension of its file says which.
-/

namespace ArchiveLabels.Label

/-- The two kinds of label an archive holds. -/
inductive Dialect where
  /-- XML labels. -/
  | modern
  /-- Labels and catalog files of `KEYWORD = VALUE` statements. -/
  | legacy
deriving DecidableEq, Repr, Inhabited

namespace Dialect

/-- The name of a dialect. -/
def name : Dialect → String
  | modern => "modern"
  | legacy => "legacy"

/-- The dialect of files with the given extension, in letters of either case. -/
def ofExtension? (extension : String) : Option Dialect :=
  let e := Text.lower extension
  if e = "xml" then some modern
  else if e = "lbl" || e = "cat" || e = "txt" then some legacy
  else none

/-- The dialect that the extension of a file stands for. -/
def ofPath? (p : Path) : Option Dialect :=
  p.extension?.bind ofExtension?

end Dialect

end ArchiveLabels.Label
