import ArchiveLabels.Text.Lines

/-!
# Paths

A path is a text of names with slashes between them. Paths are told apart and ordered by their
components, so that a doubled slash or a `.` inside makes no difference. `Path.absolute` is the one
spelling under which a file is kept in tables.

That names are texts is an idealisation. Where they are bytes, what is displayed of a name that is no
UTF-8 may be displayed of another name as well; here a path is what is displayed of it.
-/

namespace ArchiveLabels

open Text

/-- A path as it is spelled. -/
structure Path where
  /-- The spelling. -/
  text : String
deriving DecidableEq, Repr, Inhabited

/-- A component of a path. -/
inductive Component where
  /-- The slash in front. -/
  | root
  /-- A `.` in front. -/
  | here
  /-- `..`. -/
  | up
  /-- A name. -/
  | name (n : String)
deriving DecidableEq, Repr

namespace Component

/-- The component as it is spelled. -/
def text : Component → String
  | root => "/"
  | here => "."
  | up => ".."
  | name n => n

/-- The order of components : the root, `.`, `..`, then names by their characters. -/
def isLess : Component → Component → Bool
  | name m, name n => decide (m < n)
  | root, root => false
  | root, _ => true
  | here, up => true
  | here, name _ => true
  | up, name _ => true
  | _, _ => false

end Component

namespace Path

/-- The path starts at the root. -/
def isAbsolute (p : Path) : Bool :=
  p.text.toList.head? = some '/'

/-- What stands between the slashes of a path. -/
def segments (p : Path) : List String :=
  (pieces '/' p.text.toList).map String.ofList

/-- The component that a segment behind the first one is, if it is one. -/
def innerComponent? (segment : String) : Option Component :=
  if segment = "" || segment = "." then none
  else if segment = ".." then some .up
  else some (.name segment)

/-- The components of a path. -/
def components (p : Path) : List Component :=
  match p.segments with
  | [] => []
  | first :: rest =>
    let inner := rest.filterMap innerComponent?
    if first = "" then if rest.isEmpty then [] else .root :: inner
    else if first = "." then .here :: inner
    else (innerComponent? first).toList ++ inner

/-- Two paths of the same components. -/
def same (p q : Path) : Bool :=
  p.components == q.components

/-- The order of lists of components. -/
def componentsLess : List Component → List Component → Bool
  | [], [] => false
  | [], _ :: _ => true
  | _ :: _, [] => false
  | a :: as, b :: bs => a.isLess b || (!b.isLess a && componentsLess as bs)

/-- The order of paths by their components. -/
def isLess (p q : Path) : Bool :=
  componentsLess p.components q.components

/-- The path of a list of components. -/
def ofComponents : List Component → Path
  | [] => ⟨""⟩
  | .root :: cs => ⟨"/" ++ String.intercalate "/" (cs.map Component.text)⟩
  | cs => ⟨String.intercalate "/" (cs.map Component.text)⟩

/-- The path `q`, understood from `p` if it does not start at the root. -/
def join (p q : Path) : Path :=
  if q.isAbsolute then q
  else if p.text = "" || p.text.toList.getLast? = some '/' then ⟨p.text ++ q.text⟩
  else ⟨p.text ++ "/" ++ q.text⟩

/-- The spelling of a path by which files are looked up : from the root by way of the directory
`cwd`, one slash between components, no `.` and no slash at the end. The empty path stays empty. -/
def absolute (cwd p : Path) : Path :=
  if p.text = "" then p
  else if p.isAbsolute then ofComponents p.components
  else ofComponents (cwd.components ++ p.components.filter (· ≠ .here))

/-- How many segments are left of a list of segments when those at the end that are no component are
dropped. The first one counts if it is `.`. -/
def significantLength (segments : List String) : Nat :=
  (segments.zipIdx.filter fun (s, i) => s ≠ "" && (s ≠ "." || i = 0)).getLast?.elim 0
    fun (_, i) => i + 1

/-- The spelling of a list of segments. -/
def ofSegments (absolute : Bool) (segments : List String) : Path :=
  if absolute && segments.length ≤ 1 then ⟨"/"⟩ else ⟨String.intercalate "/" segments⟩

/-- The path without its last component; none if there is no component to drop. -/
def parent? (p : Path) : Option Path :=
  let segments := p.segments
  match significantLength segments with
  | 0 => none
  | n + 1 =>
    let front := segments.take n
    let least := if p.isAbsolute then 1 else 0
    some (ofSegments p.isAbsolute (front.take (max (significantLength front) least)))

/-- The last component, if it is a name. -/
def fileName? (p : Path) : Option String :=
  match p.components.getLast? with
  | some (.name n) => some n
  | _ => none

/-- The text before the last dot and the text behind it; a dot in front does not count. -/
def splitExtension (name : String) : String × Option String :=
  match (pieces '.' name.toList).reverse with
  | [] | [_] => (name, none)
  | [_, []] => (name, none)
  | last :: front =>
    (String.intercalate "." (front.reverse.map String.ofList), some (String.ofList last))

/-- What stands behind the last dot of the file name. -/
def extension? (p : Path) : Option String :=
  p.fileName?.bind fun n => (splitExtension n).2

/-- The path with another extension. -/
def withExtension (p : Path) (extension : String) : Path :=
  match p.fileName? with
  | none => p
  | some n =>
    let front := p.segments.take (significantLength p.segments - 1)
    ofSegments false (front ++ [(splitExtension n).1 ++ "." ++ extension])

/-- The directory around a path : its parent, or nothing. -/
def directory (p : Path) : Path :=
  p.parent?.getD ⟨""⟩

end Path

end ArchiveLabels
