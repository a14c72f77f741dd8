import ArchiveLabels.Crawl.Error
import ArchiveLabels.Crawl.Filter

/-!
# The files below a root

`FileSystem.candidates` lists the files below a root whose labels a crawl reads. Directories are
gone through in the order of the names in them, each with all that is below it. Links are not
followed, unless the root itself is one.

Every directory can be listed here. A walk of a real file system may meet entries that it cannot read
(a directory without permission, a path that is too long), which it passes over with a warning; there
are none such in a `FileSystem`.
-/

namespace ArchiveLabels

open Label

namespace Filters

mutual

/-- The candidates that stand at a path. -/
def candidatesAt (f : Filters) (d : Dialect) (p : Path) : Entry → List Path
  | .file _ _ => if f.acceptsFile p d then [p] else []
  | .directory entries => if f.acceptsDirectory p then candidatesIn f d p entries else []
  | .link _ => []

/-- The candidates below a path that leads to a directory. -/
def candidatesIn (f : Filters) (d : Dialect) (p : Path) : Directory → List Path
  | .empty => []
  | .entry name e rest => candidatesAt f d (p.join ⟨name⟩) e ++ candidatesIn f d p rest

end

end Filters

namespace FileSystem

/-- The root that stands for no directory, however its one component is spelled. -/
def standardInput : Path := ⟨"-"⟩

/-- The candidates below a root. The filter of directories does not count for the root itself. -/
def candidates (fs : FileSystem) (f : Filters) (d : Dialect) (root : Path) :
    Except CrawlError (List Path) :=
  match fs.entry? root with
  | .error _ => .error (.missingRoot root)
  | .ok e =>
    if root.same standardInput then .ok []
    else
      match e with
      | .directory entries => .ok (f.candidatesIn d root entries)
      | e => .ok (f.candidatesAt d root e)

end FileSystem

end ArchiveLabels
