import ArchiveLabels.Text.Cursor
import ArchiveLabels.Xml.Character

/-!
# Why a modern label cannot be read

A `Fault` is a cause and, for all causes but four, the place it is found at.
-/

namespace ArchiveLabels.Xml

open Text

/-- A name with the namespace prefix in front of its colon, empty if there is none. -/
structure QName where
  /-- The part before the colon. -/
  qualifier : String
  /-- The part after it. -/
  name : String
deriving DecidableEq, Repr

namespace QName

/-- A name as it is written. -/
def written (q : QName) : String :=
  if q.qualifier.isEmpty then q.name else q.qualifier ++ ":" ++ q.name

end QName

/-- A fault that has a place in the text. -/
inductive Cause where
  /-- An element is closed under another name. -/
  | unexpectedClose (opened closed : QName)
  /-- No name where there has to be one. -/
  | invalidName
  /-- Something that is no part of XML at its place. -/
  | unknownToken
  /-- Another character than the only one possible. -/
  | unexpectedChar (expected found : Char)
  /-- A character outside the class expected. -/
  | unexpectedClass (expected : String) (found : Char)
  /-- Another text than the only one possible. -/
  | expectedText (expected : String)
  /-- An XML declaration that is not at the start. -/
  | unexpectedDeclaration
  /-- Two hyphens inside a comment. -/
  | hyphensInComment
  /-- The end of a character data section outside one. -/
  | sectionEndInText
  /-- A character that may not stand in an XML document. -/
  | nonXmlChar (found : Char)
  /-- Two attributes of one name. -/
  | duplicateAttribute (name : String)
  /-- A prefix declared twice in one tag. -/
  | duplicateNamespace (qualifier : String)
  /-- A prefix that no declaration in scope binds. -/
  | unknownQualifier (qualifier : String)
  /-- An element with the prefix `xmlns`. -/
  | xmlnsElement
  /-- The prefix `xml` bound to another namespace. -/
  | wrongXmlSpace
  /-- The namespace of `xml` bound to another prefix. -/
  | xmlSpaceElsewhere
  /-- The namespace of `xmlns` bound to a prefix. -/
  | xmlnsSpaceDeclared
  /-- A reference that cannot be read. -/
  | malformedReference
  /-- A reference to an entity that nothing declares. -/
  | unknownEntity (name : String)
deriving DecidableEq, Repr

/-- Why a modern label cannot be read. -/
inductive Fault where
  /-- The text ends inside a tag or declaration. -/
  | endOfText
  /-- There is no element. -/
  | noRoot
  /-- The text ends inside the outermost element. -/
  | rootNotClosed
  /-- There is a document type declaration. -/
  | doctype
  /-- A fault at a place. -/
  | located (cause : Cause) (pos : Position)
deriving DecidableEq, Repr

/-- A number in hexadecimal digits. -/
def hexadecimal (n : Nat) : String :=
  String.ofList (Nat.toDigits 16 n)

/-- A character as messages show one that cannot be printed. -/
def escapedChar (c : Char) : String :=
  if c.toNat = 0 then "'\\0'" else "'\\u\x7b" ++ hexadecimal c.toNat ++ "\x7d'"

namespace Cause

/-- The wording of a cause found at the place `at_`. -/
def message (at_ : String) : Cause → String
  | unexpectedClose opened closed =>
    "expected '" ++ opened.written ++ "' tag, not '" ++ closed.written ++ "' at " ++ at_
  | invalidName => "invalid name token at " ++ at_
  | unknownToken => "unknown token at " ++ at_
  | unexpectedChar expected found =>
    "expected '" ++ expected.toString ++ "' not '" ++ found.toString ++ "' at " ++ at_
  | unexpectedClass expected found =>
    "expected " ++ expected ++ " not '" ++ found.toString ++ "' at " ++ at_
  | expectedText expected => "expected '" ++ expected ++ "' at " ++ at_
  | unexpectedDeclaration => "unexpected XML declaration at " ++ at_
  | hyphensInComment => "comment at " ++ at_ ++ " contains '--'"
  | sectionEndInText => "']]>' at " ++ at_ ++ " is not allowed inside a character data"
  | nonXmlChar found => "a non-XML character " ++ escapedChar found ++ " found at " ++ at_
  | duplicateAttribute name => "attribute '" ++ name ++ "' at " ++ at_ ++ " is already defined"
  | duplicateNamespace qualifier =>
    "namespace '" ++ qualifier ++ "' at " ++ at_ ++ " is already defined"
  | unknownQualifier qualifier =>
    "an unknown namespace prefix '" ++ qualifier ++ "' at " ++ at_
  | xmlnsElement => "the 'xmlns' prefix is used at " ++ at_ ++ ", but it must not be"
  | wrongXmlSpace => "'xml' namespace prefix mapped to wrong URI at " ++ at_
  | xmlSpaceElsewhere => "the 'xml' namespace URI is used for not 'xml' prefix at " ++ at_
  | xmlnsSpaceDeclared =>
    "the 'xmlns' URI is used at " ++ at_ ++ ", but it must not be declared"
  | malformedReference => "malformed entity reference at " ++ at_
  | unknownEntity name => "unknown entity reference '" ++ name ++ "' at " ++ at_

end Cause

namespace Fault

/-- The wording of a fault. -/
def message : Fault → String
  | endOfText => "unexpected end of stream"
  | noRoot => "the document does not have a root node"
  | rootNotClosed => "the root node was opened but never closed"
  | doctype => "XML with DTD detected"
  | located cause pos => cause.message (toString pos.line ++ ":" ++ toString pos.column)

/-- The line a fault is reported for : the first if it has no place. -/
def line : Fault → Nat
  | located _ pos => pos.line
  | _ => 1

end Fault

end ArchiveLabels.Xml
