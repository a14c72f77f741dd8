import ArchiveLabels.FileSystem.Basic

/-!
# Where paths lead

A path is followed from the root or from the current directory, name by name; the target of a link
takes the place of its name. What follows on a file is an error, be it only a slash.
-/

namespace ArchiveLabels.FileSystem

/-- Where a path leads. -/
inductive Place where
  /-- To the entry at the given place. -/
  | found (place : List String) (e : Entry)
  /-- To a name that the directory at the given place does not have. A path with a slash behind the
  name is that of a directory. -/
  | vacant (directory : List String) (name : String) (endsInSlash : Bool)

/-- Names have at most this many bytes. -/
def longestName : Nat := 255

/-- Paths have fewer bytes than this. -/
def pathBound : Nat := 4096

/-- At most this many links are followed. -/
def linkBound : Nat := 40

/-- Follows a list of segments from a place, and a link on the way as `next` says, given the place
of the link's directory, the target and the segments behind the link. If the last segment names a
link, it is followed only if `last` says so. -/
def followSegments (root : Directory) (last : Bool)
    (next : List String → Path → List String → Except FileError Place) (here : List String)
    (segments : List String) : Except FileError Place :=
  match segments, Entry.find? here.reverse (.directory root) with
  | _, none => .error .notFound
  | [], some e => .ok (.found here e)
  | s :: rest, some (.directory d) =>
    if s = "" || s = "." then followSegments root last next here rest
    else if s = ".." then followSegments root last next here.tail rest
    else if longestName < s.utf8ByteSize then .error .nameTooLong
    else
      match d.get? s with
      | none =>
        if rest.all (· = "") then .ok (.vacant here s !rest.isEmpty) else .error .notFound
      | some (.link target) =>
        if rest.isEmpty && !last then .ok (.found (s :: here) (.link target))
        else next here target rest
      | some _ => followSegments root last next (s :: here) rest
  | _ :: _, some _ => .error .notADirectory

/-- Follows a list of segments from a place, by way of at most `links` links. -/
def follow (root : Directory) (last : Bool) :
    (links : Nat) → (here segments : List String) → Except FileError Place
  | 0 => followSegments root last fun _ _ _ => .error .tooManyLinks
  | n + 1 => followSegments root last fun here target rest =>
    follow root last n (if target.isAbsolute then [] else here) (target.segments ++ rest)

/-- Follows a path. -/
def locate (fs : FileSystem) (last : Bool) (p : Path) : Except FileError Place :=
  if p.text.toList.contains (Char.ofNat 0) then .error .nulInName
  else if p.text = "" then .error .notFound
  else if pathBound ≤ p.text.utf8ByteSize then .error .nameTooLong
  else follow fs.root last linkBound (if p.isAbsolute then [] else fs.here) p.segments

/-- The entry that a path leads to. -/
def entry? (fs : FileSystem) (p : Path) : Except FileError Entry :=
  match fs.locate true p with
  | .ok (.found _ e) => .ok e
  | .ok (.vacant _ _ _) => .error .notFound
  | .error e => .error e

/-- The path of the current directory. -/
def workingDirectory (fs : FileSystem) : Path :=
  ⟨"/" ++ String.intercalate "/" fs.here.reverse⟩

/-- The spelling of a path by which it is kept in tables. -/
def absolute (fs : FileSystem) (p : Path) : Path :=
  Path.absolute fs.workingDirectory p

end ArchiveLabels.FileSystem
