import ArchiveLabels.Wildcard.Basic

/-!
# Places in a name

A name has one place in front of each of its bytes and one behind the last. A list of truth values,
one for each place, says which of them can be reached. `Token.reach` turns the places where a token
starts into those where what it stands for ends, all of them at once, so that the time to match a
name grows no faster than its length times that of the wildcard.
-/

namespace ArchiveLabels.Wildcard

open Text

/-- The place in front of the first byte. -/
def startPlace (bs : List UInt8) : List Bool := true :: bs.map fun _ => false

/-- The places of one list and those of another. -/
def eitherPlace (ps qs : List Bool) : List Bool := List.zipWith (· || ·) ps qs

/-- The places behind one byte that passes a test. -/
def behindByte (test : UInt8 → Bool) (bs : List UInt8) (ps : List Bool) : List Bool :=
  false :: List.zipWith (fun b p => p && test b) bs ps

/-- The places behind any number of bytes that pass a test; `reached` says whether such a run leads
to the first place. -/
def behindRun (test : UInt8 → Bool) (reached : Bool) : List UInt8 → List Bool → List Bool
  | b :: bs, p :: ps => (reached || p) :: behindRun test ((reached || p) && test b) bs ps
  | [], p :: _ => [reached || p]
  | _, [] => []

/-- The places behind a slash. -/
def behindSlash : List UInt8 → List Bool → List Bool := behindByte (· == slash)

/-- The places behind any bytes. -/
def behindAll : List UInt8 → List Bool → List Bool := behindRun (fun _ => true) false

mutual

/-- The places where what a token stands for ends, if it starts at one of the given places. -/
def Token.reach (bs : List UInt8) (ps : List Bool) : Token → List Bool
  | .literal c => (charBytes c).foldl (fun qs b => behindByte (· == b) bs qs) ps
  | .one => behindByte (· != slash) bs ps
  | .run => behindRun (· != slash) false bs ps
  | .oneOf negated ranges => behindByte (classHas negated ranges) bs ps
  | .leading => eitherPlace ps (behindSlash bs (behindAll bs ps))
  | .trailing => behindAll bs (behindSlash bs ps)
  | .inner =>
    let qs := behindSlash bs ps
    eitherPlace qs (behindSlash bs (behindAll bs qs))
  | .group branches => if allVoid branches then ps else reachOfBranches bs ps branches

/-- The places where what the tokens stand for, one after the other, ends. -/
def reachOfTokens (bs : List UInt8) (ps : List Bool) : List Token → List Bool
  | [] => ps
  | t :: ts => reachOfTokens bs (t.reach bs ps) ts

/-- The places where what one of the branches stands for ends; branches that stand for nothing do
not count. -/
def reachOfBranches (bs : List UInt8) (ps : List Bool) : List (List Token) → List Bool
  | [] => ps.map fun _ => false
  | b :: branches =>
    let qs := reachOfBranches bs ps branches
    if isVoidBranch b then qs else eitherPlace (reachOfTokens bs ps b) qs

end

/-- The bytes are those of a name that the tokens stand for. A doubled star alone stands for all
names. -/
def matchBytes (tokens : List Token) (bs : List UInt8) : Bool :=
  match tokens with
  | [.leading] => true
  | _ => (reachOfTokens bs (startPlace bs) tokens).getLastD false

end ArchiveLabels.Wildcard
