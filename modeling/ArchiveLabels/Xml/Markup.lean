import ArchiveLabels.Text.Lines
import ArchiveLabels.Xml.Reference

/-!
# The pieces of a modern label

Tags, text and sections of character data as `Token`s; comments, processing instructions and the XML
declaration are read and dropped. `tokens` reads a whole text, up to its end or its first fault.
-/

namespace ArchiveLabels.Xml

open Text

/-- An attribute as it stands in a tag. -/
structure Attribute where
  /-- Its name. -/
  name : QName
  /-- Its value, references replaced. -/
  value : String
  /-- Where it stands. -/
  pos : Position
deriving DecidableEq, Repr

/-- The start tag of an element, or the whole of an empty element. -/
structure Tag where
  /-- The name of the element. -/
  name : QName
  /-- Where the tag starts. -/
  pos : Position
  /-- The namespace declarations : prefix, if it is not the default one, and namespace. -/
  spaces : List (Option String × String)
  /-- The other attributes. -/
  attributes : List Attribute
  /-- The element ends with this tag. -/
  isEmpty : Bool
deriving DecidableEq, Repr

/-- A piece of a modern label. -/
inductive Token where
  /-- A start tag. -/
  | start (tag : Tag)
  /-- An end tag, and where it stands. -/
  | close (name : QName) (pos : Position)
  /-- Text of the element around it. -/
  | text (s : String)
deriving DecidableEq, Repr

/-- The name of a namespace that belongs to the rules of markup itself. -/
def ownSpace (name : String) : String := "http:" ++ "//www.w3.org/" ++ name

/-- The namespace that the prefix `xml` is bound to. -/
def xmlSpace : String := ownSpace "XML/1998/namespace"

/-- The namespace that no prefix may be bound to. -/
def xmlnsSpace : String := ownSpace "2000/xmlns/"

/-! ## Small pieces -/

/-- Skips white space. -/
def skipSpaces (c : Cursor) : Cursor :=
  (c.takeUntil fun cs => !(cs.head?.any isSpace)).2

/-- The text `s` stands here. -/
def atText (s : String) (c : Cursor) : Bool :=
  s.toList.isPrefixOf c.rest

/-- White space stands here. -/
def atSpace (c : Cursor) : Bool :=
  c.rest.head?.any isSpace

/-- Skips the text `s`. -/
def skipText (s : String) (c : Cursor) : Except Fault Cursor :=
  if atText s c then .ok (c.drop s.length) else .error (.located (.expectedText s) c.pos)

/-- Skips the character `x`. -/
def skipChar (x : Char) (c : Cursor) : Except Fault Cursor :=
  match c.rest with
  | [] => .error .endOfText
  | y :: _ =>
    if y = x then .ok (c.drop 1) else .error (.located (.unexpectedChar x (leadByte y)) c.pos)

/-- Reads characters up to a place that satisfies `stop`. -/
def readChars (stop : List Char → Bool) (c : Cursor) : Except Fault (List Char × Cursor) :=
  let (run, d) := c.takeUntil fun cs => stop cs || !(cs.head?.all isXmlChar)
  match d.rest with
  | [] => .ok (run, d)
  | x :: _ => if isXmlChar x then .ok (run, d) else .error (.located (.nonXmlChar x) d.pos)

/-- Reads a name, in which colons are letters like others. -/
def readName (c : Cursor) : Except Fault (String × Cursor) :=
  match c.rest with
  | [] => .error (.located .invalidName c.pos)
  | x :: _ =>
    if isNameStart x then
      let (run, d) := c.takeUntil fun cs => !(cs.head?.all isNameChar)
      .ok (String.ofList run, d)
    else .error (.located .invalidName c.pos)

/-- A name that starts as names do, or an empty one. -/
def startsAsName (cs : List Char) : Bool :=
  cs.head?.all isNameStart

/-- Reads a name with at most one colon. -/
def readQName (c : Cursor) : Except Fault (QName × Cursor) :=
  let (run, d) := c.takeUntil fun cs => !(cs.head?.all isNameChar)
  let invalid := .error (.located .invalidName c.pos)
  match pieces ':' run with
  | [name] =>
    if !name.isEmpty && startsAsName name then .ok (⟨"", String.ofList name⟩, d) else invalid
  | [qualifier, name] =>
    if startsAsName qualifier && !name.isEmpty && startsAsName name then
      .ok (⟨String.ofList qualifier, String.ofList name⟩, d)
    else invalid
  | _ => invalid

/-- Reads the quoted value behind the name of an attribute, as it is written; with it, where it
stands. -/
def readQuoted (c : Cursor) : Except Fault (List Char × Position × Cursor) := do
  let c ← skipChar '=' (skipSpaces c)
  let c := skipSpaces c
  match c.rest with
  | [] => .error .endOfText
  | q :: _ =>
    if q = '"' || q = '\'' then
      let c := c.drop 1
      let (run, d) ← readChars (fun cs => cs.head?.any fun x => x = q || x = '<') c
      return (run, c.pos, ← skipChar q d)
    else .error (.located (.unexpectedClass "a quote" (leadByte q)) c.pos)

/-! ## What is dropped -/

/-- Two hyphens in a row, or a hyphen at the end. -/
def hasHyphens : List Char → Bool
  | [] => false
  | '-' :: '-' :: _ => true
  | ['-'] => true
  | _ :: cs => hasHyphens cs

/-- Skips a comment. -/
def skipComment (c : Cursor) : Except Fault Cursor := do
  let (run, d) ← readChars "-->".toList.isPrefixOf (c.drop 4)
  let d ← skipText "-->" d
  if hasHyphens run then .error (.located .hyphensInComment c.pos) else return d

/-- Skips a processing instruction. -/
def skipInstruction (c : Cursor) : Except Fault Cursor := do
  if atText "<?xml " c then .error (.located .unexpectedDeclaration c.pos)
  else
    let (_, c) ← readName (c.drop 2)
    let (_, c) ← readChars "?>".toList.isPrefixOf (skipSpaces c)
    skipText "?>" c

/-- Skips an attribute of the XML declaration. -/
def skipAttribute (c : Cursor) : Except Fault Cursor := do
  let (_, c) ← readQName c
  let (_, _, c) ← readQuoted c
  return c

/-- Skips the white space between the attributes of the XML declaration. -/
def skipGap (c : Cursor) : Except Fault Cursor :=
  match c.rest with
  | [] => .ok c
  | x :: _ =>
    if isSpace x then .ok (skipSpaces c)
    else if atText "?>" c then .ok c
    else .error (.located (.unexpectedClass "a whitespace" (leadByte x)) c.pos)

/-- Skips the XML declaration. -/
def skipDeclaration (c : Cursor) : Except Fault Cursor := do
  let c ← skipGap (c.drop 5)
  if !atText "version" c then .error (.located (.expectedText "version") c.pos)
  else
    let c ← skipGap (← skipAttribute c)
    let c ← if atText "encoding" c then skipGap (← skipAttribute c) else pure c
    let c ← if atText "standalone" c then skipAttribute c else pure c
    skipText "?>" (skipSpaces c)

/-! ## Tags -/

namespace Tag

/-- Adds an attribute, which declares a namespace if its prefix or its name is `xmlns`. -/
def addAttribute (t : Tag) (a : Attribute) : Except Fault Tag :=
  if a.name.qualifier = "xmlns" then
    if a.value = xmlnsSpace then .error (.located .xmlnsSpaceDeclared a.pos)
    else if a.name.name = "xml" && a.value ≠ xmlSpace then .error (.located .wrongXmlSpace a.pos)
    else if a.name.name ≠ "xml" && a.value = xmlSpace then
      .error (.located .xmlSpaceElsewhere a.pos)
    else if (t.spaces.lookup (some a.name.name)).isSome then
      .error (.located (.duplicateNamespace a.name.name) a.pos)
    else if a.value = xmlSpace then .ok t
    else .ok { t with spaces := t.spaces ++ [(some a.name.name, a.value)] }
  else if a.name.name = "xmlns" then
    if a.value = xmlSpace then .error (.located .xmlSpaceElsewhere a.pos)
    else if a.value = xmlnsSpace then .error (.located .xmlnsSpaceDeclared a.pos)
    else .ok { t with spaces := t.spaces ++ [(none, a.value)] }
  else .ok { t with attributes := t.attributes ++ [a] }

end Tag

/-- Reads an attribute of a tag. -/
def readAttribute (c : Cursor) : Except Fault (Attribute × Cursor) := do
  let (name, d) ← readQName c
  let (written, pos, d) ← readQuoted d
  let value ← attributeValue written pos
  return (⟨name, String.ofList value, c.pos⟩, d)

/-- Reads the rest of a start tag; `none` if the text ends behind its name or an attribute. Every
attribute takes a character, so that `fuel` characters hold no more than `fuel` attributes. -/
def readTagFrom (fuel : Nat) (t : Tag) (c : Cursor) : Except Fault (Option Tag × Cursor) :=
  let d := skipSpaces c
  match d.rest with
  | [] => if c.rest.isEmpty then .ok (none, d) else .error .endOfText
  | '/' :: _ => do return (some { t with isEmpty := true }, ← skipChar '>' (d.drop 1))
  | '>' :: _ => .ok (some t, d.drop 1)
  | x :: _ =>
    if atSpace c then
      match fuel with
      | 0 => .ok (none, d)
      | fuel + 1 => do
        let (a, e) ← readAttribute d
        readTagFrom fuel (← t.addAttribute a) e
    else .error (.located (.unexpectedClass "a whitespace" (leadByte x)) d.pos)

/-- Reads a start tag. -/
def readTag (c : Cursor) : Except Fault (Option Tag × Cursor) := do
  let (name, d) ← readQName (c.drop 1)
  if name.qualifier = "xmlns" then .error (.located .xmlnsElement (c.drop 1).pos)
  else readTagFrom d.rest.length ⟨name, c.pos, [], [], false⟩ d

/-- Reads an end tag. -/
def readClose (c : Cursor) : Except Fault (Token × Cursor) := do
  let (name, d) ← readQName (c.drop 2)
  return (.close name c.pos, ← skipChar '>' (skipSpaces d))

/-! ## Content -/

/-- The characters `]]>` stand somewhere in `cs`. -/
def hasSectionEnd : List Char → Bool
  | [] => false
  | ']' :: ']' :: '>' :: _ => true
  | _ :: cs => hasSectionEnd cs

/-- Reads the text up to the next markup. -/
def readText (c : Cursor) : Except Fault (Token × Cursor) := do
  let (run, d) ← readChars (fun cs => cs.head? = some '<') c
  if hasSectionEnd run then .error (.located .sectionEndInText d.pos)
  else
    let value ← textValue run c.pos
    return (.text (String.ofList value), d)

/-- Reads a section of character data. -/
def readSection (c : Cursor) : Except Fault (Token × Cursor) := do
  let (run, d) ← readChars "]]>".toList.isPrefixOf (c.drop 9)
  return (.text (String.ofList (sectionValue run)), ← skipText "]]>" d)

/-- Where a reader stands in a document. -/
inductive Phase where
  /-- Before the outermost element. -/
  | prolog
  /-- Inside `depth + 1` elements. -/
  | content (depth : Nat)
  /-- Behind the outermost element. -/
  | epilog
deriving DecidableEq, Repr

namespace Phase

/-- Behind a start tag. -/
def opened : Phase → Phase
  | content depth => content (depth + 1)
  | _ => content 0

/-- Behind an end tag or an empty element. -/
def closed : Phase → Phase
  | content (depth + 1) => content depth
  | _ => epilog

end Phase

/-- Reads a start tag and the phase behind it. -/
def readStart (phase : Phase) (c : Cursor) : Except Fault (Option Token × Phase × Cursor) := do
  let (t?, d) ← readTag c
  match t? with
  | none => return (none, phase, d)
  | some t => return (some (.start t), if t.isEmpty then phase.opened.closed else phase.opened, d)

/-- Reads the next piece outside the outermost element. -/
def readOutside (phase : Phase) (c : Cursor) : Except Fault (Option Token × Phase × Cursor) := do
  let c := skipSpaces c
  if c.rest.isEmpty then return (none, phase, c)
  else if atText "<!--" c then return (none, phase, ← skipComment c)
  else if atText "<?" c then return (none, phase, ← skipInstruction c)
  else if phase = .prolog && atText "<!DOCTYPE" c then .error .doctype
  else if phase = .prolog && atText "<" c then readStart phase c
  else .error (.located .unknownToken c.pos)

/-- Reads the next piece inside an element. -/
def readInside (phase : Phase) (c : Cursor) : Except Fault (Option Token × Phase × Cursor) := do
  match c.rest with
  | [] => return (none, phase, c)
  | ['<'] => .error (.located .unknownToken c.pos)
  | '<' :: '!' :: _ =>
    if atText "<!--" c then return (none, phase, ← skipComment c)
    else if atText "<![CDATA[" c then
      let (t, d) ← readSection c
      return (some t, phase, d)
    else .error (.located .unknownToken c.pos)
  | '<' :: '?' :: _ => return (none, phase, ← skipInstruction c)
  | '<' :: '/' :: _ =>
    let (t, d) ← readClose c
    return (some t, phase.closed, d)
  | '<' :: _ => readStart phase c
  | _ =>
    let (t, d) ← readText c
    return (some t, phase, d)

/-- Reads the next piece; some pieces give no token. -/
def readPiece (phase : Phase) (c : Cursor) : Except Fault (Option Token × Phase × Cursor) :=
  match phase with
  | .content _ => readInside phase c
  | _ => readOutside phase c

/-- The tokens from the cursor on, and the fault that ends them if one does. Every piece takes a
character, so that `fuel` characters hold no more than `fuel` pieces. -/
def tokensFrom : Nat → Phase → Cursor → List Token × Option Fault
  | 0, _, _ => ([], none)
  | fuel + 1, phase, c =>
    if c.rest.isEmpty then ([], none)
    else
      match readPiece phase c with
      | .error e => ([], some e)
      | .ok (t?, phase, d) =>
        let (ts, fault) := tokensFrom fuel phase d
        (t?.toList ++ ts, fault)

/-- Skips a byte order mark. -/
def skipMark (c : Cursor) : Cursor :=
  match c.rest with
  | x :: _ => if x.toNat = 0xFEFF then c.drop 1 else c
  | [] => c

/-- The tokens of a text, and the fault that ends them if one does. -/
def tokens (text : String) : List Token × Option Fault :=
  let c := skipMark (.ofString text)
  let start := if atText "<?xml " c then skipDeclaration c else .ok c
  match start with
  | .error e => ([], some e)
  | .ok c => tokensFrom c.rest.length .prolog c

end ArchiveLabels.Xml
