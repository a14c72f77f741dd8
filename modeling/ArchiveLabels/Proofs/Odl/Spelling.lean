import ArchiveLabels.Proofs.Odl.Passage
import ArchiveLabels.Proofs.Text.Blank

/-!
# Ways to write a value

A value that may stand in double quotes or bare (`Measure`), the three ways to write it
(`Spelling`), and labels of one statement a line in which every value has a spelling of its own
(`Page`). What makes a value one that can be written bare goes with it : it must not start like a
string or a set, nor hold what ends a bare token. A bare token reaches to the end of its line or to
a comma or bracket of its set, so that it takes in its unit, which is then split off at the last `<`
(`bareScalar_measure`).
-/

namespace ArchiveLabels

open Text

namespace Odl

variable {c : Char} {as bs : List Char}

/-! ## Comments -/

theorem noCommentStart_cons :
    NoCommentStart (c :: as) ↔ startsComment (c :: as) = false ∧ NoCommentStart as := by
  have hfront : ['/', '*'] <+: c :: as ↔ startsComment (c :: as) = true := by
    rcases as with _ | ⟨d, as⟩
    · simp [startsComment]
    · simp only [List.cons_prefix_cons, List.nil_prefix, and_true]
      constructor
      · rintro ⟨rfl, rfl⟩
        rfl
      · unfold startsComment
        split
        · rename_i heq
          cases heq
          exact fun _ => ⟨rfl, rfl⟩
        · exact fun h => nomatch h
  rw [NoCommentStart, List.infix_cons_iff, hfront, not_or, Bool.not_eq_true]
  rfl

/-- No comment starts where two texts without one meet. -/
theorem NoCommentStart.append (has : NoCommentStart as) (hbs : NoCommentStart bs)
    (h : bs.head? ≠ some '*') : NoCommentStart (as ++ bs) := by
  induction as with
  | nil => exact hbs
  | cons c as ih =>
    rw [List.cons_append]
    exact noCommentStart_cons.mpr
      ⟨startsComment_append has h, ih (noCommentStart_cons.mp has).2⟩

/-- Without a slash there is no comment. -/
theorem noCommentStart_of_not_mem (h : '/' ∉ as) : NoCommentStart as :=
  fun hinside => h (hinside.subset List.mem_cons_self)

/-! ## Values -/

/-- A value that can stand in quotes or without. -/
structure Token extends Quotable where
  trimmed : trimChars chars = chars
  noLineEnd : '\n' ∉ chars
  noReturn : '\r' ∉ chars
  noComment : NoCommentStart chars
  startsBare : ∀ c ∈ chars.head?, c ∉ ['\'', '{', '(']

/-- A unit that can stand behind a bare value. -/
structure TokenUnit extends UnitName where
  noOpen : '<' ∉ chars
  noReturn : '\r' ∉ chars
  noComment : NoCommentStart chars

/-- A value with its unit. Without one, the value must not end as if it had one. -/
structure Measure where
  /-- The value. -/
  value : Token
  /-- The unit, if there is one. -/
  unit : Option TokenUnit
  noClose : unit = none → '>' ∉ value.chars.getLast?

/-- How a value is written. -/
inductive Spelling where
  /-- In double quotes, with a space in front of the unit. -/
  | quoted
  /-- Bare, with a space in front of the unit. -/
  | spaced
  /-- Bare, with nothing in front of the unit. -/
  | joined
deriving DecidableEq, Repr

namespace Measure

/-- What is read of a value. -/
def scalar (m : Measure) : Scalar :=
  ⟨String.ofList m.value.chars, m.unit.map fun u => String.ofList u.chars⟩

/-- The value in quotes. -/
def quantity (m : Measure) : Quantity :=
  ⟨m.value.toQuotable, m.unit.map TokenUnit.toUnitName⟩

/-- The text of the unit, behind the characters `gap`. -/
def unitChars (m : Measure) (gap : List Char) : List Char :=
  match m.unit with
  | none => []
  | some u => gap ++ '<' :: (u.chars ++ ['>'])

/-- The text without quotes. -/
def bareChars (m : Measure) (gap : List Char) : List Char :=
  m.value.chars ++ m.unitChars gap

/-- The text of a value in a spelling. -/
def chars (m : Measure) : Spelling → List Char
  | .quoted => m.quantity.chars
  | .spaced => m.bareChars [' ']
  | .joined => m.bareChars []

variable {m : Measure} {gap : List Char}

/-- Quoted or bare, a measure has the one scalar. -/
theorem scalar_quantity_eq (m : Measure) : m.quantity.scalar = m.scalar := by
  simp [quantity, Quantity.scalar, scalar, Function.comp_def]

theorem bareChars_ne_nil : m.bareChars gap ≠ [] := by
  simp [bareChars, m.value.ne_nil]

/-- A bare measure starts as its value does. -/
theorem head?_bareChars : (m.bareChars gap).head? = m.value.chars.head? :=
  List.head?_append_of_ne_nil _ m.value.ne_nil

/-- The text without quotes is trimmed, with or without a unit. -/
theorem trimmed_bareChars : trimChars (m.bareChars gap) = m.bareChars gap := by
  refine trimChars_of_ends ?_ ?_
  · rw [head?_bareChars]
    exact head_of_trimmed m.value.trimmed
  · rw [bareChars, unitChars]
    cases m.unit with
    | none =>
      rw [List.append_nil]
      exact last_of_trimmed m.value.trimmed
    | some u =>
      have hlast : (m.value.chars ++ (gap ++ '<' :: (u.chars ++ ['>']))).getLast? = some '>' := by
        simp [List.getLast?_append, List.getLast?_cons]
      rw [hlast]
      rintro c ⟨⟩
      rfl

end Measure

/-! ## Splitting off the unit -/

/-- The unit is split off at the last opening bracket. -/
theorem splitLastOpen_append (h : '<' ∉ as) (bs : List Char) :
    splitLastOpen (as ++ '<' :: bs) = some (bs, as) := by
  induction as with
  | nil => rfl
  | cons c as ih =>
    rw [List.mem_cons, not_or] at h
    rw [List.cons_append, splitLastOpen, ih h.2]
    · rfl
    · exact fun hc => h.1 hc.symm

/-- A bare token with its unit parts at the last `<`. -/
theorem bareScalar_measure (m : Measure) {gap : List Char} (hgap : ∀ c ∈ gap, isBlank c = true) :
    bareScalar (String.ofList (m.bareChars gap)) = m.scalar := by
  rw [bareScalar, Measure.bareChars, Measure.unitChars, Measure.scalar]
  cases hunit : m.unit with
  | none =>
    have hnone : splitUnit (String.ofList (m.value.chars ++ [])) = none := by
      rw [splitUnit, String.toList_ofList, List.append_nil]
      split
      · rename_i cs hreverse
        refine absurd ?_ (m.noClose hunit)
        rw [← List.head?_reverse, hreverse]
        rfl
      · rfl
    rw [hnone, List.append_nil]
    rfl
  | some u =>
    have hreverse : (m.value.chars ++ (gap ++ '<' :: (u.chars ++ ['>']))).reverse =
        '>' :: (u.chars.reverse ++ '<' :: (m.value.chars ++ gap).reverse) := by
      simp
    have hopen : '<' ∉ u.chars.reverse := by
      rw [List.mem_reverse]
      exact u.noOpen
    have hsplit : splitUnit (String.ofList (m.value.chars ++ (gap ++ '<' :: (u.chars ++ ['>'])))) =
        some (String.ofList m.value.chars, String.ofList u.chars) := by
      rw [splitUnit, String.toList_ofList, hreverse]
      simp only [splitLastOpen_append hopen, Option.map_some, List.reverse_reverse]
      rw [trim, trim, String.toList_ofList, String.toList_ofList,
        trimChars_append m.value.ne_nil m.value.trimmed hgap, u.trimmed]
    rw [hsplit]
    rfl

example : bareScalar "a < b <KM>" = ⟨"a < b", some "KM"⟩ := by decide

/-! ## Sets -/

/-- A run of spaces and tabs. -/
structure Spaces where
  /-- The characters of the run. -/
  chars : List Char
  isSpace : ∀ c ∈ chars, c = ' ' ∨ c = '\t'

/-- A value that can stand in a set in any spelling : it holds nothing that ends a bare member. -/
structure Member extends Measure where
  noStop : ∀ c ∈ [',', '}', ')'], c ∉ value.chars ∧ ∀ u ∈ unit, c ∉ u.chars

/-- A member of a set as it is written. -/
structure SpelledMember where
  /-- The value. -/
  member : Member
  /-- How it is written. -/
  spelling : Spelling
  /-- The spaces in front of it. -/
  before : Spaces
  /-- The spaces behind it. -/
  behind : Spaces

/-- The text of a member and the spaces around it. -/
def SpelledMember.chars (m : SpelledMember) : List Char :=
  m.before.chars ++ (m.member.chars m.spelling ++ m.behind.chars)

/-- What stands behind an equals sign, as it is written. -/
inductive SpelledValue where
  /-- A value. -/
  | single (m : Measure) (spelling : Spelling)
  /-- A set without members. -/
  | empty (inside : Spaces)
  /-- A set of values. -/
  | set (m : SpelledMember) (ms : List SpelledMember)

namespace SpelledValue

/-- The text of a set from behind a member on. -/
def membersChars : List SpelledMember → List Char
  | [] => ['}']
  | m :: ms => ',' :: (m.chars ++ membersChars ms)

/-- The text of a value or a set. -/
def chars : SpelledValue → List Char
  | single m spelling => m.chars spelling
  | empty inside => '{' :: (inside.chars ++ ['}'])
  | set m ms => '{' :: (m.chars ++ membersChars ms)

/-- What is read of it. -/
def value : SpelledValue → Value
  | single m _ => .scalar m.scalar
  | empty _ => .set []
  | set m ms => .set (m.member.scalar :: ms.map fun m => m.member.scalar)

/-- The same with every value in quotes. -/
def quoted : SpelledValue → SpelledValue
  | single m _ => single m .quoted
  | empty inside => empty inside
  | set m ms => set { m with spelling := .quoted } (ms.map fun m => { m with spelling := .quoted })

/-- Quoting a value leaves it the same value. -/
@[simp]
theorem value_quoted (v : SpelledValue) : v.quoted.value = v.value := by
  cases v <;> simp [quoted, value]

end SpelledValue

/-! ## Pages -/

/-- The end of a line. -/
inductive LineEnd where
  /-- A line feed. -/
  | feed
  /-- A carriage return and a line feed. -/
  | returnFeed
deriving DecidableEq, Repr

/-- The text of a line end. -/
def LineEnd.chars : LineEnd → List Char
  | feed => ['\n']
  | returnFeed => ['\r', '\n']

/-- A statement in a line of its own. -/
structure Line where
  /-- The spaces in front of the keyword. -/
  indent : Spaces
  /-- The keyword. -/
  keyword : PlainKeyword
  /-- The spaces in front of the equals sign. -/
  before : Spaces
  /-- The spaces behind the equals sign. -/
  behind : Spaces
  /-- The value. -/
  value : SpelledValue
  /-- The spaces behind the value. -/
  tail : Spaces

namespace Line

/-- The text of a line, without its end. -/
def chars (l : Line) : List Char :=
  l.indent.chars ++ (l.keyword.chars ++ (l.before.chars ++ '=' :: (l.behind.chars ++
    (l.value.chars ++ l.tail.chars))))

/-- The line with every value in quotes. -/
def quoted (l : Line) : Line :=
  { l with value := l.value.quoted }

/-- The statement of a line, which is the `n`-th of the text. -/
def statement (l : Line) (n : Nat) : Statement :=
  ⟨l.keyword.text, some l.value.value, ⟨n, l.indent.chars.length + 1⟩⟩

end Line

/-- Statements, one a line. The last line may go without its end. -/
inductive Page where
  /-- No statement. -/
  | done (ending : Ending)
  /-- The last line. -/
  | last (l : Line)
  /-- A line and those below. -/
  | line (l : Line) (ending : LineEnd) (next : Page)

namespace Page

/-- The text of a page. -/
def chars : Page → List Char
  | done ending => ending.chars
  | last l => l.chars
  | line l ending next => l.chars ++ (ending.chars ++ next.chars)

/-- The page with every value in quotes. -/
def quoted : Page → Page
  | done ending => done ending
  | last l => last l.quoted
  | line l ending next => line l.quoted ending next.quoted

/-- The statements of a page, the first of which is in the `n`-th line of the text. -/
def statements : Nat → Page → List Statement
  | _, done _ => []
  | n, last l => [l.statement n]
  | n, line l _ next => l.statement n :: next.statements (n + 1)

/-- Quotes make no difference to the statements. -/
theorem statements_quoted (g : Page) (n : Nat) : g.quoted.statements n = g.statements n := by
  induction g generalizing n with
  | done => rfl
  | last l => simp [quoted, statements, Line.quoted, Line.statement]
  | line l ending next ih => simp [quoted, statements, Line.quoted, Line.statement, ih]

/-- The tree of a page : the nodes of its statements, all under the root. -/
def tree (g : Page) : Label.Tree where
  dialect := .legacy
  nodes := (rootNode :: (g.statements 1).flatMap fun s => s.nodes 0).toArray

end Page

end Odl

end ArchiveLabels
