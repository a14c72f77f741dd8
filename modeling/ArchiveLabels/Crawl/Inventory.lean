import ArchiveLabels.Crawl.Error
import ArchiveLabels.Crawl.Exclusions
import ArchiveLabels.Selector.Select
import ArchiveLabels.Text.Delimited
import ArchiveLabels.Text.Digits

/-!
# Inventories of collections

The label of a collection describes a table of its members. Members that are secondary are left out
of a crawl, and so is the file of the table.
-/

namespace ArchiveLabels

open Label Text Policy

/-- What a member is to a collection. -/
inductive MemberStatus where
  /-- It belongs to the collection. -/
  | primary
  /-- It belongs to another one. -/
  | secondary
deriving DecidableEq, Repr

namespace MemberStatus

/-- The name of a status. -/
def name : MemberStatus → String
  | primary => "primary"
  | secondary => "secondary"

/-- The status that a word in a table means. -/
def parse? (word : String) : Option MemberStatus :=
  match lower (trim word) with
  | "p" | "primary" => some primary
  | "s" | "secondary" => some secondary
  | _ => none

end MemberStatus

/-- A member of a collection. -/
structure Member where
  /-- What it is to the collection. -/
  status : MemberStatus
  /-- Which product it is. -/
  identifier : Identifier
deriving DecidableEq, Repr

/-- The members of a collection, and where they are listed. -/
structure Inventory where
  /-- The label of the collection. -/
  collection : Path
  /-- The file of the table. -/
  table : Path
  /-- The members. -/
  members : List Member
deriving DecidableEq, Repr

/-- How a table is laid out. -/
structure TableLayout where
  /-- The name of its file. -/
  fileName : String
  /-- The character between two fields. -/
  delimiter : Char
  /-- Which field of a row says the status, counted from 1. -/
  statusField : Nat
  /-- Which field of a row names the product, counted from 1. -/
  identifierField : Nat
deriving DecidableEq, Repr

namespace TableLayout

/-! ## The description in a label -/

/-- A selector of one branch that starts at the document. -/
def absoluteSelector (source : String) (steps : List Step) : Selector :=
  ⟨source, [⟨true, steps⟩]⟩

/-- The name of the character between fields. -/
def delimiterName : Selector :=
  absoluteSelector "//Inventory/field_delimiter"
    [descendantStep "Inventory", childStep "field_delimiter"]

/-- The name of the file of the table. -/
def tableFile : Selector :=
  absoluteSelector "//File_Area*/File/file_name"
    [descendantStep "File_Area*", childStep "File", childStep "file_name"]

/-- The number of the field of the given name. -/
def fieldNumber (name : String) : Selector :=
  absoluteSelector
    ("//Inventory/Record_Delimited/Field_Delimited[name='" ++ name ++ "']/field_number")
    [descendantStep "Inventory", childStep "Record_Delimited",
      .down .child ⟨none, "Field_Delimited"⟩ (some ⟨"name", name⟩), childStep "field_number"]

/-- The character that a name of a delimiter means. -/
def delimiter? (name : String) : Option Char :=
  match String.ofList ((trimChars name.toList).map fun c =>
      if c = ' ' || c = '-' then '_' else c.toLower) with
  | "comma" => some ','
  | "horizontal_tab" => some '\t'
  | "semicolon" => some ';'
  | "vertical_bar" => some '|'
  | _ => none

/-- Numbers of fields are below this bound. -/
def fieldBound : Nat := UInt64.size

/-- A positive number in decimal digits, with a plus sign in front or without. -/
def positive? (s : String) : Option Nat :=
  (Text.unsigned? fieldBound s.toList).filter (0 < ·)

/-- The first value that a selector finds in the label of the collection at `p`. -/
def value (p : Path) (t : Tree) (s : Selector) (what : String) : Except CrawlError String :=
  match s.firstValue? t 0 with
  | some v => .ok v
  | none => .error (.inventory p what)

/-- The number of a field. -/
def field (p : Path) (t : Tree) (name : String) : Except CrawlError Nat := do
  let what := name ++ " field number"
  match positive? (← value p t (fieldNumber name) what) with
  | some n => return n
  | none => throw (.inventory p ("valid " ++ what))

/-- The layout that the label of the collection at `p` describes. -/
def ofTree (p : Path) (t : Tree) : Except CrawlError TableLayout := do
  let name ← value p t delimiterName "field_delimiter"
  match delimiter? name with
  | none => throw (.inventory p ("known field delimiter (found '" ++ name ++ "')"))
  | some d =>
    let file ← value p t tableFile "inventory file name"
    let status ← field p t "Member_Status"
    let identifier ← field p t "LIDVID_LID"
    return ⟨file, d, status, identifier⟩

/-! ## The table -/

/-- The member that a row lists. A row of another status or without identifier lists none. -/
def member? (l : TableLayout) (row : List String) : Option Member := do
  let status ← MemberStatus.parse? (row.getD (l.statusField - 1) "")
  let identifier ← (Identifier.parse (row.getD (l.identifierField - 1) "")).toOption
  return ⟨status, identifier⟩

/-- The members that rows list. A row that cannot be read is passed over. -/
def membersOf (l : TableLayout) (rows : List (Option (List String))) : List Member :=
  rows.filterMap fun row => row.bind l.member?

/-- The members that a table lists. In a text every row can be read. -/
def members (l : TableLayout) (text : String) : List Member :=
  l.membersOf ((rows l.delimiter text).map some)

end TableLayout

namespace Inventory

/-- What an inventory leaves out. -/
def exclusions (i : Inventory) (cwd : Path) : Exclusions :=
  (i.members.filter fun m => m.status = .secondary).foldl (fun e m => e.add m.identifier)
    (Exclusions.empty.claim cwd i.table)

end Inventory

namespace FileSystem

/-- The inventory of the collection whose label is at `p`. -/
def readInventory (fs : FileSystem) (p : Path) : Except CrawlError Inventory := do
  let t ← (fs.readLabel p).mapError (.collectionLabel p)
  let layout ← TableLayout.ofTree p t
  let table := p.directory.join ⟨layout.fileName⟩
  let text ← (fs.readText table).mapError (.file table)
  return ⟨p, table, layout.members text⟩

/-- What the inventories of the given collections leave out. -/
def readExclusions (fs : FileSystem) (collections : List Path) : Except CrawlError Exclusions :=
  collections.foldlM (fun e p => do
    return e.merge ((← fs.readInventory p).exclusions fs.workingDirectory)) .empty

end FileSystem

end ArchiveLabels
