import ArchiveLabels.Label.Tree
import ArchiveLabels.Xml.Markup

/-!
# From tokens to a label tree

`Elements.add` puts one token into the tree under construction, keeping track of the open elements
and the namespaces in scope; `readLabel` does so for all tokens of a text.
-/

namespace ArchiveLabels.Xml

open Text Label

/-- Namespace declarations in scope, the nearest first. -/
abbrev Scope := List (Option String × String)

/-- An element that is open. -/
structure OpenElement where
  /-- Its name. -/
  name : QName
  /-- The namespaces in scope inside. -/
  scope : Scope
  /-- The number of its node. -/
  node : Nat
deriving Repr

/-- A tree under construction. -/
structure Elements where
  /-- The nodes so far. -/
  tree : Tree
  /-- The open elements, innermost first. -/
  opened : List OpenElement

namespace Elements

/-- The tree before the first tag. -/
def empty : Elements := ⟨⟨.modern, #[]⟩, []⟩

/-- The namespaces in scope where the reader stands. -/
def scope (e : Elements) : Scope :=
  match e.opened with
  | [] => []
  | o :: _ => o.scope

/-- The namespace that the prefix of an element or attribute at `pos` is bound to. -/
def resolve (scope : Scope) (qualifier : String) (pos : Position) :
    Except Fault (Option String) :=
  if qualifier.isEmpty then .ok (scope.lookup none)
  else
    match scope.lookup (some qualifier) with
    | some s => .ok (some s)
    | none => .error (.located (.unknownQualifier qualifier) pos)

/-- The namespace of an attribute. One without prefix has none, whatever the default. -/
def attributeSpace (scope : Scope) (a : Attribute) : Except Fault (Option String) :=
  if a.name.qualifier = "xml" then .ok (some xmlSpace)
  else if a.name.qualifier.isEmpty then .ok none
  else resolve scope a.name.qualifier a.pos

/-- The attributes of a tag under their local names. No two may have the same namespace and name;
`seen` are those before. -/
def attributes (scope : Scope) (seen : List (Option String × String)) :
    List Attribute → Except Fault (List (String × String))
  | [] => .ok []
  | a :: as => do
    let name := (← attributeSpace scope a, a.name.name)
    if seen.contains name then .error (.located (.duplicateAttribute a.name.name) a.pos)
    else return (a.name.name, a.value) :: (← attributes scope (name :: seen) as)

/-- The place behind the `<` of a tag at `pos`. -/
def nameStart (pos : Position) : Position := pos.after '<'

/-- Puts a start tag into the tree. -/
def addTag (e : Elements) (t : Tag) : Except Fault Elements := do
  let scope := t.spaces ++ e.scope
  let attributes ← attributes scope [] t.attributes
  let space ← resolve scope t.name.qualifier (nameStart t.pos)
  let node := e.tree.size
  let tree := e.tree.push
    ⟨t.name.name, space, attributes, none, t.pos, e.opened.head?.map OpenElement.node⟩
  return ⟨tree, if t.isEmpty then e.opened else ⟨t.name, scope, node⟩ :: e.opened⟩

/-- Puts text into the innermost open element. -/
def addText (e : Elements) (s : String) : Elements :=
  match e.opened with
  | [] => e
  | o :: _ =>
    if s.isEmpty then e
    else
      { e with
        tree.nodes := e.tree.nodes.modify o.node fun n =>
          { n with text := some (n.text.getD "" ++ s) } }

/-- Closes the innermost open element, which has to have the name given. -/
def close (e : Elements) (name : QName) (pos : Position) : Except Fault Elements :=
  match e.opened with
  | [] => .error (.located .unknownToken pos)
  | o :: os =>
    if o.name = name then .ok { e with opened := os }
    else .error (.located (.unexpectedClose o.name name) pos)

/-- Puts a token into the tree. -/
def add (e : Elements) : Token → Except Fault Elements
  | .start t => e.addTag t
  | .close name pos => e.close name pos
  | .text s => .ok (e.addText s)

/-- Puts a list of tokens into the tree. -/
def addAll (e : Elements) : List Token → Except Fault Elements
  | [] => .ok e
  | t :: ts =>
    match e.add t with
    | .error f => .error f
    | .ok e => e.addAll ts

/-- The finished tree : there has to be an element, and all have to be closed. -/
def finish (e : Elements) : Except Fault Tree :=
  if e.tree.size = 0 then .error .noRoot
  else if e.opened.isEmpty then .ok e.tree
  else .error .rootNotClosed

end Elements

/-- Reads a modern label. The fault reported is the first one in the text. -/
def readLabel (text : String) : Except Fault Tree :=
  let (ts, fault) := tokens text
  match Elements.empty.addAll ts with
  | .error e => .error e
  | .ok e =>
    match fault with
    | some f => .error f
    | none => e.finish

end ArchiveLabels.Xml
