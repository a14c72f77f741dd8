import ArchiveLabels.Wildcard.Places

/-!
# How names are looked up

Names are not matched with every wildcard in the same way. Some wildcards only ask what a name is,
how it starts or how it ends; some ask what its last part is, or the extension of that. A name that
ends in `..` has no last part, and a wildcard that asks for it does not accept the name, whatever
its tokens stand for (`Wildcard.accepts`).
-/

namespace ArchiveLabels.Wildcard

open Text

/-- What is asked of a name. -/
inductive Lookup where
  /-- What it is, how it starts or how it ends. -/
  | whole
  /-- What its last part is, or the extension of that. -/
  | lastPart
  /-- What the extension of its last part is, and then whether it matches. -/
  | extension
  /-- Whether it matches. -/
  | expression
deriving DecidableEq, Repr

/-- The tokens stand for names of any length that end in a point and characters, among which is
neither a point nor a slash. -/
def isAnyOfExtension : List Token → Bool
  | .run :: .literal '.' :: ts => ts.all fun t => t.literal?.any fun c => c != '.' && c != '/'
  | _ => false

/-- The tokens, last first, start with characters up to a point, none of which is a slash. -/
def endsInExtension : List Token → Bool
  | .literal c :: ts => c = '.' || (c ≠ '/' && endsInExtension ts)
  | _ => false

/-- What the tokens of a wildcard ask of a name. -/
def lookup (tokens : List Token) : Lookup :=
  let other := if endsInExtension tokens.reverse then Lookup.extension else .expression
  match tokens with
  | [] => .expression
  | .leading :: ts =>
    if ts.isEmpty then .expression
    else if ts.all Token.isLiteral then
      if ts.any fun t => t.literal? == some '/' then .whole else .lastPart
    else if isAnyOfExtension ts then .lastPart
    else other
  | ts =>
    if ts.all Token.isLiteral then .whole
    else
      match ts.reverse with
      | .trailing :: front => if front.all Token.isLiteral then .whole else other
      | _ => other

/-- The last part of a name is none that can be asked for. -/
def isWithoutLastPart (bs : List UInt8) : Bool :=
  bs.reverse.takeWhile (· != slash) == [point, point]

/-- The name is one that the wildcard stands for and can be asked what the wildcard asks. -/
def accepts (w : Wildcard) (name : String) : Bool :=
  let bs := (Utf8.encode name).data.toList
  match lookup w.tokens with
  | .lastPart | .extension => !isWithoutLastPart bs && matchBytes w.tokens bs
  | .whole | .expression => matchBytes w.tokens bs

end ArchiveLabels.Wildcard
