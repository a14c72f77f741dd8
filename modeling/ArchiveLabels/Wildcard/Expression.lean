import ArchiveLabels.Wildcard.Basic

/-!
# Wildcards as regular expressions

What a wildcard stands for can be written as a regular expression over bytes
(`Wildcard.expression`). A wildcard whose expression nests too deeply is refused, which happens to
groups in braces that stand deep inside each other (`Wildcard.isTooDeep`). Rows of parts,
alternatives, repetitions, groups and classes count as a level each.
-/

namespace ArchiveLabels.Wildcard

/-! ## Text -/

/-- A character that has a meaning of its own in regular expressions. -/
def isReserved (c : Char) : Bool :=
  "\\.+*?()|[]\x7b\x7d^$#&-~".toList.contains c

/-- A byte that stands for itself. -/
def byteExpression (b : UInt8) : List Char :=
  let c := Char.ofNat b.toNat
  if 0x80 ≤ b then '\\' :: 'x' :: Nat.toDigits 16 b.toNat
  else if isReserved c then ['\\', c]
  else [c]

/-- A character that stands for itself. -/
def charExpression (c : Char) : List Char := (charBytes c).flatMap byteExpression

/-- A range of characters in a class. -/
def rangeExpression (range : Char × Char) : List Char :=
  if range.1 = range.2 then charExpression range.1
  else charExpression range.1 ++ '-' :: charExpression range.2

mutual

/-- The expression of a token. -/
def Token.expression : Token → List Char
  | .literal c => charExpression c
  | .one => "[^/]".toList
  | .run => "[^/]*".toList
  | .oneOf negated ranges =>
    '[' :: ((if negated then ['^'] else []) ++ (ranges.flatMap rangeExpression ++ [']']))
  | .leading => "(?:/?|.*/)".toList
  | .trailing => "/.*".toList
  | .inner => "(?:/|/.*/)".toList
  | .group branches =>
    if allVoid branches then []
    else "(?:".toList ++ ((expressionOfBranches branches).drop 1 ++ [')'])

/-- The expression of tokens in a row. -/
def expressionOfTokens : List Token → List Char
  | [] => []
  | t :: ts => t.expression ++ expressionOfTokens ts

/-- The expressions of branches, each with a bar in front; branches that stand for nothing have
none. -/
def expressionOfBranches : List (List Token) → List Char
  | [] => []
  | b :: branches =>
    (if isVoidBranch b then [] else '|' :: expressionOfTokens b) ++ expressionOfBranches branches

end

/-! ## Depth -/

/-- How many parts of a row a token is. -/
def Token.width : Token → Nat
  | .literal c => (charBytes c).length
  | .trailing => 2
  | .group branches => if allVoid branches then 0 else 1
  | _ => 1

/-- The level that a row is, unless it has one part or none. -/
def rowLevel (parts : Nat) : Nat := if parts < 2 then 0 else 1

/-- How many parts the row of some tokens has. -/
def rowWidth (ts : List Token) : Nat := ts.foldl (fun n t => n + t.width) 0

mutual

/-- How many levels the expression of a token has. -/
def Token.depth : Token → Nat
  | .literal _ => 0
  | .one => 1
  | .run => 2
  | .oneOf _ ranges => 1 + rowLevel (ranges.flatMap byteRanges).length
  | .leading => 4
  | .trailing => 1
  | .inner => 4
  | .group branches =>
    if allVoid branches then 0
    else
      1 + (rowLevel (branches.filter fun b => !isVoidBranch b).length + depthOfBranches branches)

/-- How many levels the deepest of some tokens has. -/
def depthOfTokens : List Token → Nat
  | [] => 0
  | t :: ts => max t.depth (depthOfTokens ts)

/-- How many levels the deepest of some branches has. -/
def depthOfBranches : List (List Token) → Nat
  | [] => 0
  | b :: branches => max (rowLevel (rowWidth b) + depthOfTokens b) (depthOfBranches branches)

end

/-- An expression has no more levels. -/
def depthBound : Nat := 250

/-- The expression of a wildcard, which is about bytes, and about a name from its start to its end.
-/
def expression (w : Wildcard) : String :=
  String.ofList ("(?-u)^".toList ++ (expressionOfTokens w.tokens ++ ['$']))

/-- The expression of a wildcard, which is a row, has too many levels. -/
def isTooDeep (w : Wildcard) : Bool := depthBound < 1 + depthOfTokens w.tokens

end ArchiveLabels.Wildcard
