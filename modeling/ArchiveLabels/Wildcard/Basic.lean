import ArchiveLabels.Text.Utf8

/-!
# Wildcards

A wildcard stands for a set of names. It is matched byte by byte : `?` is one byte and `*` any
number of them, except slashes. Its parts are tokens; a group of branches holds tokens again.
-/

namespace ArchiveLabels.Wildcard

open Text

/-- A part of a wildcard. -/
inductive Token where
  /-- The character itself. -/
  | literal (c : Char)
  /-- Any byte but a slash. -/
  | one
  /-- Any run of bytes without slashes. -/
  | run
  /-- One of the bytes of a class, or, if `negated`, any other byte. -/
  | oneOf (negated : Bool) (ranges : List (Char × Char))
  /-- Nothing, a slash, or directories and the slash behind them : a doubled star in front of a
  slash. -/
  | leading
  /-- A slash and all that follows : a doubled star behind a slash. -/
  | trailing
  /-- A slash, or directories between two slashes : a doubled star between slashes. -/
  | inner
  /-- What one of the branches stands for. -/
  | group (branches : List (List Token))
deriving Repr

/-- The slash. -/
def slash : UInt8 := 0x2F

/-- The point. -/
def point : UInt8 := 0x2E

/-- The bytes of a character. -/
def charBytes (c : Char) : List UInt8 :=
  (Utf8.encode (String.singleton c)).data.toList

/-- A byte between two others. -/
def inBounds (b : UInt8) (bounds : UInt8 × UInt8) : Bool :=
  bounds.1 ≤ b && b ≤ bounds.2

/-- The bounds of the bytes that a range of characters stands for. Of characters of several bytes,
the inner ones stand for themselves, and the range is between the two bytes that face each other. -/
def byteRanges (range : Char × Char) : List (UInt8 × UInt8) :=
  let low := charBytes range.1
  let high := charBytes range.2
  if range.1 = range.2 then low.map fun b => (b, b)
  else
    low.dropLast.map (fun b => (b, b)) ++ [(low.getLastD 0, high.headD 0)] ++
      high.tail.map fun b => (b, b)

/-- The byte is one that a class stands for. -/
def classHas (negated : Bool) (ranges : List (Char × Char)) (b : UInt8) : Bool :=
  (ranges.any fun r => (byteRanges r).any (inBounds b)) != negated

mutual

/-- The token stands for nothing but the empty list : a group without other branches. -/
def Token.isVoid : Token → Bool
  | .group branches => allVoid branches
  | _ => false

/-- All tokens stand for nothing. -/
def isVoidBranch : List Token → Bool
  | [] => true
  | t :: ts => t.isVoid && isVoidBranch ts

/-- All branches stand for nothing. -/
def allVoid : List (List Token) → Bool
  | [] => true
  | b :: bs => isVoidBranch b && allVoid bs

end

/-- The character that a token is, if it is one. -/
def Token.literal? : Token → Option Char
  | .literal c => some c
  | _ => none

/-- The token is a character. -/
def Token.isLiteral (t : Token) : Bool := t.literal?.isSome

end ArchiveLabels.Wildcard

namespace ArchiveLabels

/-- A wildcard as it is written and as it is understood. -/
structure Wildcard where
  /-- The text. -/
  source : String
  /-- Its parts. -/
  tokens : List Wildcard.Token

end ArchiveLabels
