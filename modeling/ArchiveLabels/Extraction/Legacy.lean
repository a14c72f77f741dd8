import ArchiveLabels.Extraction.Basic
import ArchiveLabels.Text.Fold

/-!
# Records of legacy labels

A legacy label has no identifier of its own, so that one is made from the values of some keywords.
The outermost objects are its data classes, and the keywords by which others may refer to it become
slots.
-/

namespace ArchiveLabels.Extraction.Legacy

open Label

/-- The statements of the given keyword anywhere in the label. -/
def statements (t : Tree) (keyword : String) : List Nat :=
  t.all.filter fun i => t.name i == keyword && ((t.node i).attribute? "kind").isNone

/-- The non-empty values of a keyword, each with its line. -/
def keywordEntries (t : Tree) (keyword : String) : List (String × Nat) :=
  t.entries (statements t keyword)

/-- The first non-empty value of a keyword. -/
def keywordValue? (t : Tree) (keyword : String) : Option String :=
  (keywordEntries t keyword).head?.map Prod.fst

/-- The names of the outermost objects, each once. -/
def dataClasses (t : Tree) : List String :=
  let objects := (t.children 0).filter fun i => (t.node i).attribute? "kind" == some "OBJECT"
  (objects.map t.name).eraseDups

/-- The slots of the keywords `keywords`, apart from those that are there already. -/
def keywordSlots (t : Tree) (slots : List Slot) (keywords : List String) : List Slot :=
  (keywords.filter fun k => !slots.any fun s => s.name == k).filterMap fun k =>
    Slot.ofEntries? k (keywordEntries t k)

/-- The slots that rules fill, then those of the keywords that others may refer by. -/
def slots (p : Policy) (t : Tree) : List Slot :=
  let ruled := (p.rulesFor p.legacy.objectType).filterMap fun r => r.slot? t
  ruled ++ keywordSlots t ruled p.slotKeywords

/-- The associations of one keyword. -/
def keywordReferences (t : Tree) (source keyword relationship : String) : List Reference :=
  (keywordEntries t keyword).map fun (value, line) =>
    ⟨⟨value, none⟩, relationship, source, some line⟩

/-- The associations of all keywords that name other products, in the order of their lines. -/
def references (p : Policy) (t : Tree) (source : String) : List Reference :=
  (p.legacy.referenceKeywords.flatMap fun (keyword, relationship) =>
    keywordReferences t source keyword relationship).mergeSort fun a b =>
      a.line.getD 0 ≤ b.line.getD 0

/-- The identifier made from the values of the keywords for it; none if they have no values. -/
def identifier? (p : Policy) (t : Tree) : Option Identifier :=
  match p.legacy.lidKeywords.filterMap (keywordValue? t) with
  | [] => none
  | parts =>
    let name := String.intercalate ":" (parts.map Text.lower)
    some ⟨p.legacy.lidPrefix ++ name, some p.legacy.version⟩

/-- The title. -/
def title? (p : Policy) (t : Tree) : Option String :=
  ((keywordValue? t p.legacy.titleKeyword).map Text.singleSpaced).filter (· ≠ "")

/-- The record of a legacy label. -/
def record (p : Policy) (t : Tree) (source : String) : Record where
  source := source
  identifier := identifier? p t
  title := title? p t
  objectType := p.legacy.objectType
  dataClasses := dataClasses t
  references := references p t source
  slots := slots p t

end ArchiveLabels.Extraction.Legacy
