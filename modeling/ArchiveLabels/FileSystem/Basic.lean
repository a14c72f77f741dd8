import ArchiveLabels.Path
import ArchiveLabels.Time.Timestamp

/-!
# Files and directories

A file system is a value : a tree of directories, each with its entries in the order of their names,
the current directory, the time that the next file written gets, what was printed, and the room that
there is for files. A place in the tree is the list of names that lead to it from the root, innermost
first.
-/

namespace ArchiveLabels

mutual

/-- What stands in a directory. -/
inductive Entry where
  /-- A file, and when it was last written. -/
  | file (content : ByteArray) (modified : Timestamp)
  /-- A directory. -/
  | directory (d : Directory)
  /-- A link to where another path leads. -/
  | link (target : Path)

/-- A directory. -/
inductive Directory where
  /-- No entries. -/
  | empty
  /-- An entry, and those of greater names. -/
  | entry (name : String) (e : Entry) (rest : Directory)

end

instance : Inhabited Directory := ⟨.empty⟩

instance : Inhabited Entry := ⟨.directory .empty⟩

namespace Directory

/-- The entry of the given name. -/
def get? (name : String) : Directory → Option Entry
  | empty => none
  | entry n e rest => if n = name then some e else get? name rest

/-- Sets the entry of the given name. -/
def put (name : String) (e : Entry) : Directory → Directory
  | empty => entry name e empty
  | entry n f rest =>
    if name < n then entry name e (entry n f rest)
    else if n = name then entry n e rest
    else entry n f (put name e rest)

/-- Drops the entry of the given name. -/
def erase (name : String) : Directory → Directory
  | empty => empty
  | entry n e rest => if n = name then rest else entry n e (erase name rest)

/-- The entries with their names. -/
def toList : Directory → List (String × Entry)
  | empty => []
  | entry n e rest => (n, e) :: toList rest

theorem get?_put_self (name : String) (e : Entry) (d : Directory) :
    (d.put name e).get? name = some e := by
  fun_induction put name e d with
  | case1 => simp [get?]
  | case2 => simp [get?]
  | case3 => simp [get?]
  | case4 n f rest _ h ih => simp [get?, h, ih]

end Directory

namespace Entry

/-- The entry that a list of names leads to, outermost first. -/
def find? : List String → Entry → Option Entry
  | [], e => some e
  | n :: ns, directory d => (d.get? n).bind (find? ns)
  | _ :: _, _ => none

/-- Sets the entry that a list of names leads to, outermost first, or drops it. -/
def change (new : Option Entry) : List String → Entry → Entry
  | [], e => new.getD e
  | [n], directory d =>
    match new with
    | some e => directory (d.put n e)
    | none => directory (d.erase n)
  | n :: m :: ns, directory d =>
    match d.get? n with
    | some e => directory (d.put n (change new (m :: ns) e))
    | none => directory d
  | _ :: _, e => e

end Entry

/-- All files and directories. -/
structure FileSystem where
  /-- The directory at the root. -/
  root : Directory
  /-- The names that lead to the current directory, innermost first. -/
  here : List String
  /-- The time that the next file written gets. -/
  clock : Timestamp
  /-- What was written to standard output. -/
  printed : String
  /-- How many bytes a file at a place may have, if there is a limit. Bytes beyond it cannot be
  written, though the file can be opened. -/
  room : List String → Option Nat := fun _ => none

instance : Inhabited FileSystem :=
  ⟨{ root := .empty, here := [], clock := .epoch, printed := "" }⟩

/-- Why the file system does not do what it is asked. -/
inductive FileError where
  /-- There is nothing of that name. -/
  | notFound
  /-- Something is there already. -/
  | alreadyThere
  /-- A file stands where a directory has to be. -/
  | notADirectory
  /-- A directory stands where a file has to be. -/
  | isADirectory
  /-- Links lead to links without end. -/
  | tooManyLinks
  /-- A name has more bytes than names may have. -/
  | nameTooLong
  /-- A name holds the character NUL. -/
  | nulInName
  /-- The bytes of a file are no text. -/
  | notText
  /-- There is no room for bytes that are to be written. -/
  | noSpace
deriving DecidableEq, Repr

namespace FileError

/-- The wording of an error. -/
def message : FileError → String
  | notFound => "No such file or directory (os error 2)"
  | alreadyThere => "File exists (os error 17)"
  | notADirectory => "Not a directory (os error 20)"
  | isADirectory => "Is a directory (os error 21)"
  | tooManyLinks => "Too many levels of symbolic links (os error 40)"
  | nameTooLong => "File name too long (os error 36)"
  | nulInName => "file name contained an unexpected NUL byte"
  | notText => "stream did not contain valid UTF-8"
  | noSpace => "No space left on device (os error 28)"

end FileError

end ArchiveLabels
