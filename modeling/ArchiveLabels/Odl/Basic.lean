import ArchiveLabels.Text.Cursor

/-!
# Statements of legacy labels

A legacy label is a list of statements `KEYWORD = VALUE`. `OBJECT` and `GROUP` statements open a
block, `END_OBJECT` and `END_GROUP` close it and may leave out the value. A `Fault` says why a label
cannot be read and in which line.
-/

namespace ArchiveLabels.Odl

open Text

/-- A single value with its unit. -/
structure Scalar where
  /-- The value. -/
  text : String
  /-- What stands between `<` and `>` behind the value. -/
  unit : Option String
deriving DecidableEq, Repr

/-- What stands behind the equals sign. -/
inductive Value where
  /-- A single value. -/
  | scalar (s : Scalar)
  /-- The members of a set; those of sets inside it stand among them. -/
  | set (members : List Scalar)
deriving DecidableEq, Repr

/-- The two kinds of block. -/
inductive BlockKind where
  /-- Between `OBJECT` and `END_OBJECT`. -/
  | object
  /-- Between `GROUP` and `END_GROUP`. -/
  | group
deriving DecidableEq, Repr

namespace BlockKind

/-- The keyword that opens the block. -/
def opening : BlockKind → String
  | object => "OBJECT"
  | group => "GROUP"

/-- The keyword that closes the block. -/
def closing : BlockKind → String
  | object => "END_OBJECT"
  | group => "END_GROUP"

end BlockKind

/-- What a keyword does to the nesting of blocks. -/
inductive Role where
  /-- Opens a block. -/
  | opens (kind : BlockKind)
  /-- Closes a block. -/
  | closes (kind : BlockKind)
  /-- Neither. -/
  | plain
deriving DecidableEq, Repr

/-- The role of a keyword. -/
def role (keyword : String) : Role :=
  if keyword = "OBJECT" then .opens .object
  else if keyword = "GROUP" then .opens .group
  else if keyword = "END_OBJECT" then .closes .object
  else if keyword = "END_GROUP" then .closes .group
  else .plain

/-- A statement of a legacy label. -/
structure Statement where
  /-- The text before the equals sign. -/
  keyword : String
  /-- The value; a statement that closes a block may have none. -/
  value : Option Value
  /-- Where the keyword stands. -/
  pos : Position
deriving DecidableEq, Repr

/-- Why a legacy label cannot be read. -/
inductive Cause where
  /-- The text ends inside a comment. -/
  | unterminatedComment
  /-- The text ends inside a quoted string. -/
  | unterminatedString
  /-- The line or the text ends inside a unit. -/
  | unterminatedUnit
  /-- The text ends inside a set. -/
  | unterminatedSet
  /-- A member of a set is followed by neither a comma nor the bracket. -/
  | unexpectedInSet (found : Char)
  /-- A statement starts with an equals sign. -/
  | expectedKeyword (found : Char)
  /-- A keyword has no equals sign. -/
  | missingEquals (keyword : String)
  /-- Nothing stands where a value has to. -/
  | missingValue (keyword : String)
  /-- A block is named by a set. -/
  | nameNotSingle (keyword : String)
  /-- A block is closed where none is open. -/
  | closesNothing (kind : BlockKind)
  /-- The innermost open block is of the other kind. -/
  | closesOther (kind : BlockKind) (opened : BlockKind) (name : String) (line : Nat)
  /-- The innermost open block has another name. -/
  | closesMisnamed (kind : BlockKind) (given : String) (name : String) (line : Nat)
  /-- A block is open at the end of the label. -/
  | neverClosed (kind : BlockKind) (name : String)
deriving DecidableEq, Repr

namespace Cause

/-- The wording of a cause. -/
def message : Cause → String
  | unterminatedComment => "unterminated comment"
  | unterminatedString => "unterminated string"
  | unterminatedUnit => "unterminated unit"
  | unterminatedSet => "unterminated set"
  | unexpectedInSet found => "unexpected '" ++ found.toString ++ "' in set"
  | expectedKeyword found => "expected a keyword, found '" ++ found.toString ++ "'"
  | missingEquals keyword => "missing '=' after '" ++ keyword ++ "'"
  | missingValue keyword => "missing value for '" ++ keyword ++ "'"
  | nameNotSingle keyword => keyword ++ " name must be a single value"
  | closesNothing kind => kind.closing ++ " without a matching " ++ kind.opening
  | closesOther kind opened name line =>
    kind.closing ++ " cannot close " ++ opened.opening ++ " = " ++ name ++ " opened at line " ++
      toString line
  | closesMisnamed kind given name line =>
    kind.closing ++ " = " ++ given ++ " does not match " ++ kind.opening ++ " = " ++ name ++
      " opened at line " ++ toString line
  | neverClosed kind name => kind.opening ++ " = " ++ name ++ " is never closed"

end Cause

/-- Why a legacy label cannot be read, and where. -/
structure Fault where
  /-- The cause. -/
  cause : Cause
  /-- The line it is reported for. -/
  line : Nat
deriving DecidableEq, Repr

end ArchiveLabels.Odl
