import ArchiveLabels.FileSystem.Operations
import ArchiveLabels.Odl.Nesting
import ArchiveLabels.Xml.Elements

/-!
# Reading labels

A label is read from a text of a known dialect, or from a file, whose extension gives the dialect.
Bytes of a file that are no text do not keep its label from being read.
-/

namespace ArchiveLabels

open Label

/-- Why a label cannot be read. -/
inductive LabelError where
  /-- The text is no label. -/
  | malformed (line : Nat) (reason : String)
  /-- The extension of the file stands for no dialect. -/
  | unknownDialect (path : Path)
  /-- The file cannot be read. -/
  | unreadable (e : FileError)
deriving DecidableEq, Repr

namespace LabelError

/-- The wording of an error. -/
def message : LabelError → String
  | malformed line reason => "Parse failed at line " ++ toString line ++ ": " ++ reason
  | unknownDialect path => "Unsupported label extension: " ++ path.text
  | unreadable e => "IO error: " ++ e.message

/-- The wordings of what an error comes from. -/
def causes : LabelError → List String
  | unreadable e => [e.message]
  | _ => []

/-- The line of an error, if it has one. -/
def line? : LabelError → Option Nat
  | malformed line _ => some line
  | _ => none

end LabelError

/-- The label that a text of the given dialect holds. -/
def Label.Tree.ofText (d : Dialect) (text : String) : Except LabelError Tree :=
  match d with
  | .legacy => (Odl.readLabel text).mapError fun e => .malformed e.line e.cause.message
  | .modern => (Xml.readLabel text).mapError fun e => .malformed e.line e.message

/-- The label in a file. -/
def FileSystem.readLabel (fs : FileSystem) (p : Path) : Except LabelError Tree := do
  match Dialect.ofPath? p with
  | none => throw (.unknownDialect p)
  | some d =>
    let bytes ← (fs.read p).mapError .unreadable
    Tree.ofText d (Text.Utf8.lossy bytes)

theorem FileSystem.readLabel_of_read {fs : FileSystem} {p : Path} {d : Dialect} {text : String}
    (hd : Dialect.ofPath? p = some d) (h : fs.read p = .ok (Text.Utf8.encode text)) :
    fs.readLabel p = Tree.ofText d text := by
  rw [readLabel, hd, h]
  exact congrArg (Tree.ofText d) (Text.Utf8.lossy_encode text)

end ArchiveLabels
