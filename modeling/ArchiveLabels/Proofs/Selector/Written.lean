import ArchiveLabels.Selector.Reader

/-!
# Written selectors

How a selector is written : an `Expression` is a row of branches with bars between them, together
with the blanks around the bars, in front of the tests and between their tokens. `Expression.text`
is its text and `Expression.branches` what it says.

The types leave out what is no expression : dots do not follow `//` (`WrittenStep`), a prefix is one
that the table binds (`Qualifier`), and a value has no quote of the kind around it (`WrittenTest`).
-/

namespace ArchiveLabels.Selector

/-! ## Names and tests -/

/-- A character of a prefix or a name. -/
def isNameChar (c : Char) : Bool :=
  isChildChar c || c == '*'

/-- Blanks, or nothing. -/
structure Blanks where
  /-- The blanks. -/
  chars : List Char
  blank : ∀ c ∈ chars, Text.isBlank c = true

/-- A prefix that is bound to a namespace. -/
structure Qualifier (bindings : Bindings) where
  /-- The characters in front of the colon. -/
  chars : List Char
  /-- The namespace. -/
  space : String
  plain : ∀ c ∈ chars, isNameChar c = true
  bound : bindings.lookup (String.ofList chars) = some space

/-- A name test. -/
structure WrittenName (bindings : Bindings) where
  /-- The prefix, if there is one. -/
  qualifier : Option (Qualifier bindings)
  /-- The name, in which stars may stand. -/
  name : List Char
  ne_nil : name ≠ []
  plain : ∀ c ∈ name, isNameChar c = true

variable {bindings : Bindings} {axis : Axis}

namespace WrittenName

/-- The text of a name test. -/
def chars (w : WrittenName bindings) : List Char :=
  match w.qualifier with
  | none => w.name
  | some q => q.chars ++ ':' :: w.name

/-- What it demands. -/
def test (w : WrittenName bindings) : NameTest :=
  ⟨w.qualifier.map fun q => q.space, String.ofList w.name⟩

end WrittenName

/-- The two kinds of quotes. -/
inductive Quote where
  /-- The quote `'`. -/
  | single
  /-- The quote `"`. -/
  | double

/-- The character. -/
def Quote.char : Quote → Char
  | single => '\''
  | double => '"'

/-- A test, with the blanks in front of each of its tokens. -/
structure WrittenTest where
  /-- In front of the bracket. -/
  beforeOpen : Blanks
  /-- Behind the bracket. -/
  beforeChild : Blanks
  /-- The name of the child. -/
  child : List Char
  /-- In front of the equals sign. -/
  beforeEquals : Blanks
  /-- Behind the equals sign. -/
  beforeValue : Blanks
  /-- The quotes around the value. -/
  quote : Quote
  /-- The value. -/
  value : List Char
  /-- Behind the value. -/
  beforeClose : Blanks
  ne_nil : child ≠ []
  plain : ∀ c ∈ child, isChildChar c = true
  noQuote : quote.char ∉ value

namespace WrittenTest

/-- The text from behind the bracket on. -/
def innerChars (w : WrittenTest) : List Char :=
  w.beforeChild.chars ++ (w.child ++ (w.beforeEquals.chars ++ '=' ::
    (w.beforeValue.chars ++ w.quote.char :: (w.value ++ w.quote.char ::
      (w.beforeClose.chars ++ [']'])))))

/-- The text of a test. -/
def chars (w : WrittenTest) : List Char :=
  w.beforeOpen.chars ++ '[' :: w.innerChars

/-- What it demands. -/
def test (w : WrittenTest) : ChildTest :=
  ⟨String.ofList w.child, String.ofList w.value⟩

/-- The text of a test, if there is one. -/
def optionChars : Option WrittenTest → List Char
  | none => []
  | some w => w.chars

end WrittenTest

/-! ## Steps, branches and unions -/

/-- A step that can follow the slashes of an axis. -/
inductive WrittenStep (bindings : Bindings) : Axis → Type where
  /-- One dot. -/
  | here : WrittenStep bindings .child
  /-- Two dots. -/
  | up : WrittenStep bindings .child
  /-- A name test, and a test of the children if there is one. -/
  | down {axis : Axis} (name : WrittenName bindings) (test : Option WrittenTest) :
    WrittenStep bindings axis

namespace WrittenStep

/-- The text of a step, without its slashes. -/
def chars : WrittenStep bindings axis → List Char
  | here => ['.']
  | up => ['.', '.']
  | down name test => name.chars ++ WrittenTest.optionChars test

/-- The step. -/
def step : WrittenStep bindings axis → Step
  | here => .here
  | up => .up
  | down name test => .down axis name.test (test.map WrittenTest.test)

end WrittenStep

/-- The slashes of an axis. -/
def slashes : Axis → List Char
  | .child => ['/']
  | .descendant => ['/', '/']

/-- A step with slashes in front. -/
structure SlashedStep (bindings : Bindings) where
  /-- What the slashes say. -/
  axis : Axis
  /-- The step behind them. -/
  written : WrittenStep bindings axis

namespace SlashedStep

/-- The text of the slashes and the step. -/
def chars (s : SlashedStep bindings) : List Char :=
  slashes s.axis ++ s.written.chars

/-- The step. -/
def step (s : SlashedStep bindings) : Step :=
  s.written.step

end SlashedStep

/-- A branch. -/
inductive WrittenBranch (bindings : Bindings) where
  /-- It starts at the context node. -/
  | relative (first : WrittenStep bindings .child) (steps : List (SlashedStep bindings))
  /-- It starts at the document. -/
  | absolute (first : SlashedStep bindings) (steps : List (SlashedStep bindings))

namespace WrittenBranch

/-- The text of a branch. -/
def chars : WrittenBranch bindings → List Char
  | relative first steps => first.chars ++ steps.flatMap SlashedStep.chars
  | absolute first steps => first.chars ++ steps.flatMap SlashedStep.chars

/-- What it says. -/
def branch : WrittenBranch bindings → Branch
  | relative first steps => ⟨false, first.step :: steps.map SlashedStep.step⟩
  | absolute first steps => ⟨true, first.step :: steps.map SlashedStep.step⟩

end WrittenBranch

/-- A branch with the blanks around it. -/
structure SpacedBranch (bindings : Bindings) where
  /-- In front. -/
  before : Blanks
  /-- The branch. -/
  written : WrittenBranch bindings
  /-- Behind. -/
  behind : Blanks

/-- The text of a branch with the blanks around it. -/
def SpacedBranch.chars (b : SpacedBranch bindings) : List Char :=
  b.before.chars ++ (b.written.chars ++ b.behind.chars)

/-- One branch, or several with bars between them. -/
inductive Expression (bindings : Bindings) where
  /-- The last branch. -/
  | last (b : SpacedBranch bindings)
  /-- A branch and those behind the bar. -/
  | bar (b : SpacedBranch bindings) (next : Expression bindings)

namespace Expression

/-- The characters of an expression. -/
def chars : Expression bindings → List Char
  | last b => b.chars
  | bar b next => b.chars ++ '|' :: next.chars

/-- The text of an expression. -/
def text (e : Expression bindings) : String :=
  String.ofList e.chars

/-- What it says. -/
def branches : Expression bindings → List Branch
  | last b => [b.written.branch]
  | bar b next => b.written.branch :: next.branches

end Expression

end ArchiveLabels.Selector
