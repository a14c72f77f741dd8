/-!
# Places in a text

A `Position` is a line and a column, both counted from one. A `Cursor` is what is left of a text and
the position where it starts. `Position.advance` is the rule that ties the two together : a line
feed starts a new line, every other character takes one column.
-/

namespace ArchiveLabels.Text

/-- A place in a text : line and column, both counted from one. -/
structure Position where
  /-- One more than the number of line feeds before. -/
  line : Nat
  /-- One more than the number of characters since the last line feed. -/
  column : Nat
deriving DecidableEq, Repr

namespace Position

/-- Where every text starts. -/
def start : Position := ⟨1, 1⟩

instance : Inhabited Position := ⟨start⟩

/-- The place after the character `c`. -/
def after (p : Position) (c : Char) : Position :=
  if c = '\n' then ⟨p.line + 1, 1⟩ else ⟨p.line, p.column + 1⟩

/-- The place after the characters `cs`. -/
def advance (p : Position) (cs : List Char) : Position :=
  cs.foldl after p

@[simp]
theorem advance_nil (p : Position) : p.advance [] = p := rfl

@[simp]
theorem advance_cons (p : Position) (c : Char) (cs : List Char) :
    p.advance (c :: cs) = (p.after c).advance cs := rfl

theorem advance_append (p : Position) (as bs : List Char) :
    p.advance (as ++ bs) = (p.advance as).advance bs :=
  List.foldl_append

end Position

/-- What is left of a text, and where it starts. -/
structure Cursor where
  /-- The characters to come. -/
  rest : List Char
  /-- The place of the first of them. -/
  pos : Position
deriving DecidableEq, Repr

namespace Cursor

/-- The whole of a text. -/
def ofChars (cs : List Char) : Cursor := ⟨cs, .start⟩

/-- The whole of a text. -/
def ofString (s : String) : Cursor := ofChars s.toList

/-- The cursor after `n` characters, or at the end of the text. -/
def drop (c : Cursor) (n : Nat) : Cursor :=
  ⟨c.rest.drop n, c.pos.advance (c.rest.take n)⟩

/-- The longest run of characters, none of which starts a list that satisfies `stop`, and the cursor
after it. -/
def takeUntil (stop : List Char → Bool) (c : Cursor) : List Char × Cursor :=
  go c.rest c.pos
where
  /-- The run at the start of the characters `cs`, which stand at `p`. -/
  go : List Char → Position → List Char × Cursor
    | [], p => ([], ⟨[], p⟩)
    | x :: xs, p =>
      if stop (x :: xs) then ([], ⟨x :: xs, p⟩)
      else
        let (run, next) := go xs (p.after x)
        (x :: run, next)

theorem takeUntil_go_append (stop : List Char → Bool) (cs : List Char) (p : Position) :
    (takeUntil.go stop cs p).1 ++ (takeUntil.go stop cs p).2.rest = cs := by
  induction cs generalizing p with
  | nil => rfl
  | cons x xs ih =>
    unfold takeUntil.go
    split
    · rfl
    · simpa using ih (p.after x)

/-- The run and what is left make up the text. -/
theorem takeUntil_append (stop : List Char → Bool) (c : Cursor) :
    (c.takeUntil stop).1 ++ (c.takeUntil stop).2.rest = c.rest :=
  takeUntil_go_append stop c.rest c.pos

theorem takeUntil_go_pos (stop : List Char → Bool) (cs : List Char) (p : Position) :
    (takeUntil.go stop cs p).2.pos = p.advance (takeUntil.go stop cs p).1 := by
  induction cs generalizing p with
  | nil => rfl
  | cons x xs ih =>
    unfold takeUntil.go
    split
    · rfl
    · simpa using ih (p.after x)

theorem takeUntil_pos (stop : List Char → Bool) (c : Cursor) :
    (c.takeUntil stop).2.pos = c.pos.advance (c.takeUntil stop).1 :=
  takeUntil_go_pos stop c.rest c.pos

end Cursor

end ArchiveLabels.Text
