import ArchiveLabels.Text.Blank

/-!
# Selectors

A selector picks nodes of a label : `//File_Area*/File | //Document_File` picks all elements of the
two kinds. It is a union of branches, and a branch is a sequence of steps from node to node.
-/

namespace ArchiveLabels

/-- Where a step looks. -/
inductive Axis where
  /-- Among the children, after `/`. -/
  | child
  /-- Among the nodes at any depth below, after `//`. -/
  | descendant
deriving DecidableEq, Repr

/-- What a step demands of the name of a node. -/
structure NameTest where
  /-- The namespace, unless any will do. -/
  space : Option String
  /-- The local name, in which `*` stands for any characters. -/
  pattern : String
deriving DecidableEq, Repr

/-- What a step demands of the children of a node : one of the given name and value. -/
structure ChildTest where
  /-- The local name of the child. -/
  child : String
  /-- Its value. -/
  value : String
deriving DecidableEq, Repr

/-- A step from a node to others. -/
inductive Step where
  /-- Stays at the node. -/
  | here
  /-- Goes to the node around. -/
  | up
  /-- Goes to the nodes below that pass the tests. -/
  | down (axis : Axis) (name : NameTest) (test : Option ChildTest)
deriving DecidableEq, Repr

/-- A sequence of steps. -/
structure Branch where
  /-- Starts at the document rather than at the context node. -/
  absolute : Bool
  /-- The steps, in order. -/
  steps : List Step
deriving DecidableEq, Repr

/-- A selector and the expression it was read from. -/
structure Selector where
  /-- The expression. -/
  source : String
  /-- What the expression says. -/
  branches : List Branch
deriving DecidableEq, Repr, Inhabited

/-- What is wrong with the form of an expression. -/
inductive Selector.Reason where
  /-- `.` or `..` after `//`. -/
  | dotsBelow
  /-- No name where one has to stand. -/
  | expectedName
  /-- A colon too many, or nothing behind it. -/
  | malformedName (token : String)
  /-- A test without the name of a child. -/
  | expectedChild
  /-- A test without equals sign. -/
  | expectedEquals
  /-- A test whose value is not quoted. -/
  | expectedQuoted
  /-- A test whose value does not end. -/
  | unterminatedString
  /-- A test that does not end. -/
  | expectedBracket
  /-- More text after the end of an expression. -/
  | trailingInput
deriving DecidableEq, Repr

/-- Why an expression is no selector. -/
inductive SelectorError where
  /-- The expression is blank. -/
  | empty
  /-- The expression is malformed at an offset, counted in bytes. -/
  | malformed (source : String) (offset : Nat) (reason : Selector.Reason)
  /-- A name has a prefix that is bound to no namespace. -/
  | unknownQualifier (source : String) (qualifier : String)
deriving DecidableEq, Repr

namespace Selector.Reason

/-- The wording of a reason. -/
def message : Selector.Reason → String
  | dotsBelow => "'.' and '..' cannot follow '//'"
  | expectedName => "expected a name test"
  | malformedName token => "malformed qualified name '" ++ token ++ "'"
  | expectedChild => "expected a child name in predicate"
  | expectedEquals => "expected '=' in predicate"
  | expectedQuoted => "expected a quoted value in predicate"
  | unterminatedString => "unterminated string in predicate"
  | expectedBracket => "expected ']' to close predicate"
  | trailingInput => "unexpected trailing input"

end Selector.Reason

namespace SelectorError

/-- The wording of an error. -/
def message : SelectorError → String
  | empty => "Empty path expression"
  | malformed source offset reason =>
    "Invalid path expression '" ++ source ++ "' at offset " ++ toString offset ++ ": " ++
      reason.message
  | unknownQualifier source qualifier =>
    "Unknown namespace prefix '" ++ qualifier ++ "' in path expression '" ++ source ++ "'"

end SelectorError

end ArchiveLabels
