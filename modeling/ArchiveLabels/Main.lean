import ArchiveLabels.CommandLine.Reach

/-!
# The program

Takes in the part of the file system that a command may touch, carries out the command on it, and
writes back the files that are new or changed.
-/

namespace ArchiveLabels.Main

open CommandLine

/-! ## Taking in files -/

/-- When a file was last written. -/
def timestampOf (t : IO.FS.SystemTime) : Timestamp := ⟨t.sec, t.nsec.toNat⟩

/-- Takes in what stands at a path, with all that is in it. -/
partial def takeIn (path : String) : IO (Option Entry) := do
  try
    let real ← IO.FS.realPath path
    let data ← real.metadata
    match data.type with
    | .file => return some (.file (← IO.FS.readBinFile path) (timestampOf data.modified))
    | .dir =>
      let mut d := Directory.empty
      for e in ← real.readDir do
        let inner := path ++ "/" ++ e.fileName
        if (← e.path.symlinkMetadata).type matches .symlink then
          d := d.put e.fileName (.link ⟨(← IO.FS.realPath inner).toString⟩)
        else
          match ← takeIn inner with
          | some entry => d := d.put e.fileName entry
          | none => pure ()
      return some (.directory d)
    | _ => return none
  catch _ => return none

/-- The names of a path from the root, where `..` drops the name in front of it. -/
def namesOf (fs : FileSystem) (p : Path) : List String :=
  (fs.absolute p).components.foldl (fun names c =>
    match c with
    | .name n => names ++ [n]
    | .up => names.dropLast
    | _ => names) []

/-- There is a directory at a path. -/
def isDirectory (path : String) : IO Bool := do
  try
    let real ← IO.FS.realPath path
    return (← real.metadata).type matches .dir
  catch _ => return false

/-- Adds what stands at a path, by way of the directories that lead to it. -/
def addPath (fs : FileSystem) (p : Path) : IO FileSystem := do
  let mut fs := fs
  let mut outer : List String := []
  let names := namesOf fs p
  for n in names do
    let path := "/" ++ String.intercalate "/" (outer ++ [n])
    if outer.length + 1 < names.length && (← isDirectory path) then
      unless fs.hasDirectory ⟨path⟩ do
        fs := fs.change (n :: outer.reverse) (some (.directory .empty))
    else
      match ← takeIn path with
      | some e => fs := fs.change (n :: outer.reverse) (some e)
      | none => pure ()
      return fs
    outer := outer ++ [n]
  return fs

/-- Adds what stands at each of the paths. -/
def addPaths (fs : FileSystem) (ps : List Path) : IO FileSystem :=
  ps.foldlM addPath fs

/-! ## Writing back -/

/-- Writes the files of a directory that are new or changed. -/
partial def writeBack (path : String) (before after : Directory) : IO Unit := do
  for (name, e) in after.toList do
    let inner := path ++ "/" ++ name
    match e, before.get? name with
    | .file bytes _, some (.file old _) => if bytes != old then IO.FS.writeBinFile inner bytes
    | .file bytes _, _ => IO.FS.writeBinFile inner bytes
    | .directory d, some (.directory old) => writeBack inner old d
    | .directory d, _ =>
      IO.FS.createDirAll inner
      writeBack inner .empty d
    | .link _, _ => pure ()

/-! ## Running -/

/-- The environment variables. -/
def environment : IO (List (String × String)) := do
  let bytes ← try IO.FS.readBinFile "/proc/self/environ" catch _ => pure ByteArray.empty
  let entries := Text.pieces (Char.ofNat 0) (Text.Utf8.lossy bytes).toList
  return entries.filterMap fun cs =>
    match cs.dropWhile (· ≠ '=') with
    | _ :: value => some (String.ofList (cs.takeWhile (· ≠ '=')), String.ofList value)
    | [] => none

/-- The part of the file system that a command line may touch. -/
def surroundings (vs : List (String × String)) (arguments : List String) : IO FileSystem := do
  let cwd : Path := ⟨(← IO.currentDir).toString⟩
  let here := (namesOf default cwd).reverse
  let fs : FileSystem := { (default : FileSystem) with here }
  match read arguments with
  | .error _ => return fs
  | .ok i =>
    let ((), fs) := ((FileSystem.makeDirectories cwd).run.map fun _ => ()).run fs
    let fs ← addPaths fs (settingsReach vs cwd i)
    let config := ((Config.load fs vs i.config).toOption).getD .default
    let fs ← addPaths fs (commandReach config i.command)
    addPaths fs (recordReach fs config)

/-- Does something to a part of the file system, prints what it prints and writes back what it
changes. -/
def apply {α : Type} (fs : FileSystem) (act : StateM FileSystem α) : IO α := do
  let (a, after) := act.run fs
  IO.print after.printed
  writeBack "" fs.root after.root
  return a

/-- Harvests every so many seconds, as long as the program runs. -/
partial def repeatHarvest (vs : List (String × String)) (arguments : List String) (h : Harvester)
    (seconds : Nat) (s : HarvestState) : IO UInt32 := do
  let next ← apply (← surroundings vs arguments) (harvestAgain h s)
  for _ in List.range seconds do
    IO.sleep 1000
  repeatHarvest vs arguments h seconds next

end ArchiveLabels.Main

/-- Carries out a command line. -/
def main (arguments : List String) : IO UInt32 := do
  let vs ← ArchiveLabels.Main.environment
  let fs ← ArchiveLabels.Main.surroundings vs arguments
  match ← ArchiveLabels.Main.apply fs (ArchiveLabels.CommandLine.run vs arguments) with
  | .finished status complaint =>
    IO.eprint complaint
    return status.toUInt32
  | .repeats h s seconds => ArchiveLabels.Main.repeatHarvest vs arguments h seconds s
