import ArchiveLabels.Crawl.Error
import ArchiveLabels.Extraction.Extract
import ArchiveLabels.Text.Lines

/-!
# Checksum manifests

A manifest says on each line the checksum of a file and the path of the file. It is compared with
the checksums that labels declare for their files.
-/

namespace ArchiveLabels

open Text

/-- Checksums by the absolute paths of their files. -/
structure Manifest where
  /-- The paths with their checksums. -/
  entries : Table Path String
deriving DecidableEq, Repr

namespace Manifest

/-- Drops a blank in front, if there is one. -/
def dropBlank : List Char → List Char
  | [] => []
  | c :: cs => if isBlank c then cs else c :: cs

/-- The checksum and the path on a line. Up to two blanks stand between them; further ones belong to
the path. -/
def splitLine? (line : List Char) : Option (List Char × List Char) :=
  let sum := line.takeWhile fun c => !isBlank c
  let path := dropBlank (dropBlank (line.drop sum.length))
  if sum.isEmpty || path.isEmpty then none else some (sum, path)

/-- Adds a line to what the lines before it say. -/
def addLine (cwd base : Path) (entries : Table Path String) (number : Nat) (line : String) :
    Except ManifestError (Table Path String) :=
  let line := trimChars line.toList
  if line.isEmpty then .ok entries
  else
    match splitLine? line with
    | none => .error (.missingPath number (String.ofList line))
    | some (sum, path) =>
      let p := Path.absolute cwd (base.join ⟨String.ofList path⟩)
      .ok (entries.put Path.isLess p (lower (String.ofList sum)))

/-- Reads the lines of a manifest from the line of the given number on. -/
def readLines (cwd base : Path) (entries : Table Path String) (number : Nat) :
    List String → Except ManifestError Manifest
  | [] => .ok ⟨entries⟩
  | line :: rest => do
    readLines cwd base (← addLine cwd base entries number line) (number + 1) rest

/-- Reads a manifest whose paths start from `base`. -/
def parse (cwd base : Path) (text : String) : Except ManifestError Manifest :=
  readLines cwd base [] 1 (lines text)

/-- The checksum of a file. -/
def get? (m : Manifest) (cwd p : Path) : Option String :=
  Table.get? Path.isLess (Path.absolute cwd p) m.entries

/-- The problem with a file that a label declares, if the manifest does not give the same checksum.
-/
def fileProblem? (m : Manifest) (cwd label : Path) (f : DeclaredFile) : Option Problem :=
  match f.checksum with
  | none => none
  | some declared =>
    match m.get? cwd (label.directory.join ⟨f.name⟩) with
    | none =>
      some ((Problem.ofKind .checksumNotListed
        ("No checksum found in the manifest for file '" ++ f.name ++ "'.") label.text).atPosition
        f.pos)
    | some listed =>
      if listed = declared then none
      else
        some ((Problem.ofKind .checksumMismatch
          ("Checksum in the label (" ++ declared ++ ") does not match the manifest (" ++ listed ++
            ") for file '" ++ f.name ++ "'.") label.text).atPosition f.pos)

/-- The problems with the files that a label declares. Names of files start from the directory of
the label. -/
def verify (m : Manifest) (cwd label : Path) (files : List DeclaredFile) : List Problem :=
  files.filterMap (m.fileProblem? cwd label)

end Manifest

/-- The manifest in a file. -/
def FileSystem.readManifest (fs : FileSystem) (p base : Path) : Except ManifestError Manifest := do
  let text ← (fs.readText p).mapError (.file p)
  Manifest.parse fs.workingDirectory base text

end ArchiveLabels
