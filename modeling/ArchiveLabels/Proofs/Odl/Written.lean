import ArchiveLabels.Odl.Nesting
import ArchiveLabels.Proofs.Odl.Scanner

/-!
# Written labels

How a legacy label is written : a `Body` is a nesting of statements and blocks with the blanks and
comments behind each of them, `Body.chars` its text, and `Body.nodes` the nodes it stands for. All
values and names are in double quotes, as these can hold whatever has no double quote in it. What
makes a keyword, a name or a unit one that can be written so goes with it.
-/

namespace ArchiveLabels.Odl

open Text Label

/-! ## Pieces -/

/-- What separates statements and blocks is made of these. -/
inductive Filler where
  /-- A blank, also a line end. -/
  | blank (c : Char) (h : isBlank c = true)
  /-- A comment, closed where it ends. -/
  | comment (body : List Char) (h : NoCommentEnd body)

/-- The text of a filler. -/
def Filler.chars : Filler → List Char
  | blank c _ => [c]
  | comment body _ => '/' :: '*' :: (body ++ ['*', '/'])

/-- What stands behind a statement or the line of a block, from its line end on. -/
abbrev Gap := List Filler

/-- The text of a gap. -/
def Gap.chars (g : Gap) : List Char :=
  '\n' :: g.flatMap Filler.chars

/-- A keyword. -/
structure Keyword where
  /-- The characters of the keyword. -/
  chars : List Char
  ne_nil : chars ≠ []
  noBlank : ∀ c ∈ chars, isBlank c = false
  noEquals : '=' ∉ chars
  noComment : NoCommentStart chars

/-- The keyword as a text. -/
def Keyword.text (k : Keyword) : String :=
  String.ofList k.chars

/-- A keyword that neither opens nor closes a block. -/
structure PlainKeyword extends Keyword where
  noBlock : toKeyword.text ∉ ["OBJECT", "GROUP", "END_OBJECT", "END_GROUP"]

/-- The keyword that opens a block. -/
def BlockKind.openingKeyword : BlockKind → Keyword
  | object => ⟨"OBJECT".toList, by decide, by simp [isBlank], by decide, by decide⟩
  | group => ⟨"GROUP".toList, by decide, by simp [isBlank], by decide, by decide⟩

/-- The keyword that closes a block. -/
def BlockKind.closingKeyword : BlockKind → Keyword
  | object => ⟨"END_OBJECT".toList, by decide, by simp [isBlank], by decide, by decide⟩
  | group => ⟨"END_GROUP".toList, by decide, by simp [isBlank], by decide, by decide⟩

/-- A value or a name that can stand in double quotes. -/
structure Quotable where
  /-- The characters between the quotes. -/
  chars : List Char
  ne_nil : chars ≠ []
  noQuote : '"' ∉ chars

/-- The text with its quotes. -/
def Quotable.quoted (t : Quotable) : List Char :=
  '"' :: (t.chars ++ ['"'])

/-- A unit that can stand between angle brackets. -/
structure UnitName where
  /-- The characters between the brackets. -/
  chars : List Char
  noClose : '>' ∉ chars
  noLineEnd : '\n' ∉ chars
  trimmed : trimChars chars = chars

/-- A value with its unit. -/
structure Quantity where
  /-- The value. -/
  value : Quotable
  /-- The unit, if there is one. -/
  unit : Option UnitName

namespace Quantity

/-- The text of the unit, with the space in front of it. -/
def unitChars : Option UnitName → List Char
  | none => []
  | some u => ' ' :: '<' :: (u.chars ++ ['>'])

/-- The text of a value and its unit. -/
def chars (q : Quantity) : List Char :=
  q.value.quoted ++ unitChars q.unit

/-- What is read of it. -/
def scalar (q : Quantity) : Scalar :=
  ⟨String.ofList q.value.chars, q.unit.map fun u => String.ofList u.chars⟩

end Quantity

/-- What stands behind an equals sign. -/
inductive Written where
  /-- A value. -/
  | single (q : Quantity)
  /-- A set of values. -/
  | set (qs : List Quantity)

namespace Written

/-- The text of a set from behind a member on. -/
def membersChars : List Quantity → List Char
  | [] => ['}']
  | q :: qs => ',' :: ' ' :: (q.chars ++ membersChars qs)

/-- The text of a value or a set. -/
def chars : Written → List Char
  | single q => q.chars
  | set [] => ['{', '}']
  | set (q :: qs) => '{' :: (q.chars ++ membersChars qs)

/-- What is read of it. -/
def value : Written → Value
  | single q => .scalar q.scalar
  | set qs => .set (qs.map Quantity.scalar)

/-- The single values. -/
def quantities : Written → List Quantity
  | single q => [q]
  | set qs => qs

end Written

/-- The text of a statement. -/
def assignment (k : Keyword) (v : Written) : List Char :=
  k.chars ++ ' ' :: '=' :: ' ' :: v.chars

/-! ## Bodies -/

/-- Statements and blocks, with what separates them. -/
inductive Body where
  /-- The end. -/
  | done
  /-- A statement. -/
  | statement (keyword : PlainKeyword) (value : Written) (gap : Gap) (next : Body)
  /-- A block, with a gap behind the line that opens it and behind the one that closes it. -/
  | block (kind : BlockKind) (name : Quotable) (gap : Gap) (inner : Body) (gapBehind : Gap)
    (next : Body)

namespace Body

/-- The text of the line that opens a block. -/
def openingChars (kind : BlockKind) (name : Quotable) : List Char :=
  assignment kind.openingKeyword (.single ⟨name, none⟩)

/-- The text of the line that closes a block. -/
def closingChars (kind : BlockKind) (name : Quotable) : List Char :=
  assignment kind.closingKeyword (.single ⟨name, none⟩)

/-- The text of a body. -/
def chars : Body → List Char
  | done => []
  | statement k v gap next => assignment k.toKeyword v ++ (gap.chars ++ next.chars)
  | block kind name gap inner gapBehind next =>
    openingChars kind name ++ (gap.chars ++ (inner.chars ++
      (closingChars kind name ++ (gapBehind.chars ++ next.chars))))

/-- The node of a value. -/
def valueNode (k : Keyword) (pos : Position) (parent : Nat) (q : Quantity) : Node where
  name := k.text
  space := none
  attributes := match q.unit with
    | none => []
    | some u => [("unit", String.ofList u.chars)]
  text := some (String.ofList q.value.chars)
  pos := pos
  parent := some parent

/-- The node of a block. -/
def blockNode (kind : BlockKind) (name : Quotable) (pos : Position) (parent : Nat) : Node where
  name := String.ofList name.chars
  space := none
  attributes := [("kind", kind.opening)]
  text := none
  pos := pos
  parent := some parent

/-- How many nodes a body stands for : one for each single value, member of a set and block. -/
def size : Body → Nat
  | done => 0
  | statement _ v _ next => v.quantities.length + next.size
  | block _ _ _ inner _ next => 1 + inner.size + next.size

/-- The nodes of a body that starts at a position, under the node `parent`; the first of them has
the number given. -/
def nodes (parent : Nat) : Nat → Position → Body → List Node
  | _, _, done => []
  | first, pos, statement k v gap next =>
    v.quantities.map (valueNode k.toKeyword pos parent) ++
      next.nodes parent (first + v.quantities.length)
        (pos.advance (assignment k.toKeyword v ++ gap.chars))
  | first, pos, block kind name gap inner gapBehind next =>
    let inside := pos.advance (openingChars kind name ++ gap.chars)
    let behind := inside.advance (inner.chars ++ (closingChars kind name ++ gapBehind.chars))
    blockNode kind name pos parent ::
      (inner.nodes first (first + 1) inside ++ next.nodes parent (first + 1 + inner.size) behind)

end Body

/-- What stands behind the last statement. -/
inductive Ending where
  /-- Nothing. -/
  | nothing
  /-- The word `END` in a line of its own, and any text. -/
  | stop (behind : List Char)

/-- The text of an ending. -/
def Ending.chars : Ending → List Char
  | nothing => []
  | stop behind => 'E' :: 'N' :: 'D' :: '\n' :: behind

/-- The root of every legacy label. -/
def rootNode : Node where
  name := "LABEL"
  space := none
  attributes := []
  text := none
  pos := .start
  parent := none

/-- The tree of a body. -/
def Body.tree (b : Body) : Tree where
  dialect := .legacy
  nodes := (rootNode :: b.nodes 0 1 .start).toArray

end ArchiveLabels.Odl
