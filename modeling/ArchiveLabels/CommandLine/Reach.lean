import ArchiveLabels.CommandLine.Perform

/-!
# What a command may touch

The paths that a command may read or write, so that no more of a file system need be known to carry
it out.
-/

namespace ArchiveLabels.CommandLine

/-- The paths where settings may be found, from the directory `cwd`. -/
def settingsReach (environment : List (String × String)) (cwd : Path) (i : Invocation) :
    List Path :=
  let file := i.config.getD Config.localFile
  (Config.userFile? environment).toList ++
    (FileSystem.ancestors (cwd.text.length + 1) cwd).map fun d => Path.join d file

/-- The paths that settings name for a crawl and its state. -/
def crawlReach (c : Config) : List Path :=
  c.crawl.roots ++ c.crawl.legacyRoots ++
    c.crawl.collections.map (fun p => Path.join p.directory ⟨"."⟩) ++
    (c.crawl.checkpointPath.toList.flatMap fun p => [p, RecordCache.pathFor p]) ++
    c.checksums.manifest.toList

/-- The paths that a command names or finds in the settings. -/
def commandReach (c : Config) : Command → List Path
  | .run records report _ => crawlReach c ++ records.toList ++ report.toList
  | .integrity directory report => directory :: report.toList
  | .manifest file _ => [file]
  | .schema => []

/-- The paths of the files whose records are kept from the last crawl. -/
def recordReach (fs : FileSystem) (c : Config) : List Path :=
  match c.crawl.checkpointPath with
  | none => []
  | some p =>
    match fs.readRecordCache (RecordCache.pathFor p) with
    | .ok cache => cache.records.map fun r => ⟨r.source⟩
    | .error _ => []

end ArchiveLabels.CommandLine
