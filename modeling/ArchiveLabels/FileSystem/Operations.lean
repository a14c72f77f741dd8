import ArchiveLabels.FileSystem.Resolve
import ArchiveLabels.Text.Utf8

/-!
# Reading and writing files

Questions to a file system are functions of it. What changes it is an `Action`, which may fail and
then keeps what it changed so far.
-/

namespace ArchiveLabels

/-- What changes a file system, or fails with an error of type `ε`. -/
abbrev Action (ε α : Type) := ExceptT ε (StateM FileSystem) α

namespace FileSystem

/-! ## Questions -/

/-- There is something where the path leads. -/
def has (fs : FileSystem) (p : Path) : Bool :=
  (fs.entry? p).toBool

/-- There is a directory where the path leads. -/
def hasDirectory (fs : FileSystem) (p : Path) : Bool :=
  match fs.entry? p with
  | .ok (.directory _) => true
  | _ => false

/-- The bytes of a file. -/
def read (fs : FileSystem) (p : Path) : Except FileError ByteArray := do
  match ← fs.entry? p with
  | .file content _ => return content
  | _ => throw .isADirectory

/-- The text of a file. -/
def readText (fs : FileSystem) (p : Path) : Except FileError String := do
  match Text.Utf8.decode? (← fs.read p) with
  | some s => return s
  | none => throw .notText

theorem readText_of_read {fs : FileSystem} {p : Path} {text : String}
    (h : fs.read p = .ok (Text.Utf8.encode text)) : fs.readText p = .ok text := by
  simp only [readText, h, bind, Except.bind, Text.Utf8.decode?_encode, pure, Except.pure]

/-- When a file was last written. The time of a directory does not count and is that of the epoch.
-/
def modified (fs : FileSystem) (p : Path) : Except FileError Timestamp := do
  match ← fs.entry? p with
  | .file _ t => return t
  | _ => return .epoch

/-! ## Changes -/

/-- The file system with another entry at a place, or with none. -/
def change (fs : FileSystem) (place : List String) (new : Option Entry) : FileSystem :=
  match Entry.change new place.reverse (.directory fs.root) with
  | .directory root => { fs with root }
  | _ => fs

/-- Writes a file, given what to make of the bytes that are there. -/
def writeWith (p : Path) (content : ByteArray → ByteArray) : Action FileError Unit := do
  let fs ← get
  let put (place : List String) (bytes : ByteArray) : Action FileError Unit :=
    set { fs.change place (some (.file (content bytes) fs.clock)) with clock := fs.clock.next }
  match fs.locate true p with
  | .error e => throw e
  | .ok (.found place (.file bytes _)) => put place bytes
  | .ok (.found _ _) => throw .isADirectory
  | .ok (.vacant directory name endsInSlash) =>
    if endsInSlash then throw .isADirectory else put (name :: directory) ByteArray.empty

/-- Makes a file without content; what was there before is gone. -/
def create (p : Path) : Action FileError Unit :=
  writeWith p fun _ => .empty

/-- Makes a file without content, unless there is one. -/
def openFile (p : Path) : Action FileError Unit := do
  match (← get).locate true p with
  | .ok (.found _ (.file _ _)) => pure ()
  | _ => create p

/-- How many of `n` bytes there is room for behind those that the file at a place has. -/
def roomBehind (fs : FileSystem) (place : List String) (size n : Nat) : Nat :=
  match fs.room place with
  | some most => min n (most - size)
  | none => n

/-- How many of the bytes there is room for in the file that a path leads to. -/
def fitting (fs : FileSystem) (p : Path) (bytes : ByteArray) : Nat :=
  match fs.locate true p with
  | .ok (.found place (.file content _)) => fs.roomBehind place content.size bytes.size
  | .ok (.vacant directory name _) => fs.roomBehind (name :: directory) 0 bytes.size
  | _ => bytes.size

/-- Writes behind what is there, as far as there is room. -/
def append (p : Path) (bytes : ByteArray) : Action FileError Unit := do
  let n := (← get).fitting p bytes
  writeWith p (· ++ bytes.extract 0 n)
  if n < bytes.size then throw .noSpace

/-- Writes a file; what was there before is gone, even if there is no room for all of what is
written. -/
def write (p : Path) (content : ByteArray) : Action FileError Unit := do
  create p
  append p content

/-- Writes a text to a file; what was there before is gone. -/
def writeText (p : Path) (text : String) : Action FileError Unit :=
  write p (Text.Utf8.encode text)

/-- Writes to standard output. -/
def print {ε : Type} (text : String) : Action ε Unit :=
  modify fun fs => { fs with printed := fs.printed ++ text }

/-- The path without the slashes at its end. -/
def withoutSlashes (p : Path) : Path :=
  match (p.text.toList.reverse.dropWhile (· = '/')).reverse with
  | [] => p
  | cs => ⟨String.ofList cs⟩

/-- Makes a directory in one that is there. -/
def makeDirectory (p : Path) : Action FileError Unit := do
  let fs ← get
  match fs.locate false (withoutSlashes p) with
  | .error e => throw e
  | .ok (.found _ _) => throw .alreadyThere
  | .ok (.vacant directory name _) => set (fs.change (name :: directory) (some (.directory .empty)))

/-- Makes the first directory of a list, unless it is there, and before it the others, each in the
next, as far as they are missing. -/
def makeFirst : List Path → Action FileError Unit
  | [] => pure ()
  | p :: parents =>
    if p.text = "" then pure ()
    else
      tryCatch (makeDirectory p) fun e => do
        if e = .notFound then
          makeFirst parents
          tryCatch (makeDirectory p) fun e => do
            unless (← get).hasDirectory p do throw e
        else unless (← get).hasDirectory p do throw e

/-- A path, its parent and so on, `n` of them at most. -/
def ancestors : Nat → Path → List Path
  | 0, _ => []
  | n + 1, p =>
    match p.parent? with
    | some q => p :: ancestors n q
    | none => [p]

/-- Makes a directory, and those around it that are not there. -/
def makeDirectories (p : Path) : Action FileError Unit :=
  makeFirst (ancestors (p.text.length + 1) p)

/-- Makes the directory around a path, unless it is the current one, and says which one it could not
make. -/
def makeParent (p : Path) : Action (Path × FileError) Unit :=
  match p.parent? with
  | some d => if d.text = "" then pure () else (makeDirectories d).adapt fun e => (d, e)
  | none => pure ()

/-- Drops what stands at a path, with all that is in it. -/
def remove (p : Path) : Action FileError Unit := do
  let fs ← get
  match fs.locate false p with
  | .error e => throw e
  | .ok (.found place _) => set (fs.change place none)
  | .ok (.vacant _ _ _) => throw .notFound

/-- Makes a link. -/
def makeLink (p target : Path) : Action FileError Unit := do
  let fs ← get
  match fs.locate false p with
  | .error e => throw e
  | .ok (.found _ _) => throw .alreadyThere
  | .ok (.vacant directory name _) => set (fs.change (name :: directory) (some (.link target)))

/-- Sets when a file was last written. -/
def setModified (p : Path) (t : Timestamp) : Action FileError Unit := do
  let fs ← get
  match fs.locate true p with
  | .error e => throw e
  | .ok (.found place (.file content _)) => set (fs.change place (some (.file content t)))
  | .ok (.found _ _) => pure ()
  | .ok (.vacant _ _ _) => throw .notFound

end FileSystem

end ArchiveLabels
