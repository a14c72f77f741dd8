import ArchiveLabels.Odl.Basic
import ArchiveLabels.Text.Blank

/-!
# Reading the pieces of a statement

Blanks and comments, quoted strings, bare tokens, units and sets. Every function takes the cursor in
front of its piece and gives the cursor behind it. `skipBlank_length` and `scalar_length` say how
far the cursor moves, which is why reading a set comes to an end.
-/

namespace ArchiveLabels.Odl

open Text

/-- Skips blanks and comments in the characters `cs`, which stand at `p`. Inside a comment the first
argument is the line the comment starts in. -/
def skipBlankFrom : Option Nat → List Char → Position → Except Fault Cursor
  | none, [], p => .ok ⟨[], p⟩
  | some line, [], _ => .error ⟨.unterminatedComment, line⟩
  | none, '/' :: '*' :: cs, p => skipBlankFrom (some p.line) cs ((p.after '/').after '*')
  | none, c :: cs, p =>
    if isBlank c then skipBlankFrom none cs (p.after c) else .ok ⟨c :: cs, p⟩
  | some _, '*' :: '/' :: cs, p => skipBlankFrom none cs ((p.after '*').after '/')
  | some line, c :: cs, p => skipBlankFrom (some line) cs (p.after c)

/-- Skips blanks, line ends and comments. -/
def skipBlank (c : Cursor) : Except Fault Cursor :=
  skipBlankFrom none c.rest c.pos

/-- A comment starts here. -/
def startsComment : List Char → Bool
  | '/' :: '*' :: _ => true
  | _ => false

/-- Neither a space nor a tab stands here. -/
def endsSpace : List Char → Bool
  | ' ' :: _ => false
  | '\t' :: _ => false
  | _ => true

/-- Skips spaces and tabs. -/
def skipSpace (c : Cursor) : Cursor :=
  (c.takeUntil endsSpace).2

/-- A keyword ends here : at a blank, an equals sign or a comment. -/
def endsKeyword : List Char → Bool
  | [] => true
  | c :: cs => isBlank c || c == '=' || startsComment (c :: cs)

/-- A bare token ends here : at the end of the line, a comment or one of the characters `stops`. -/
def endsBare (stops : List Char) : List Char → Bool
  | [] => true
  | c :: cs => c == '\n' || c == '\r' || stops.contains c || startsComment (c :: cs)

/-- The character `c` stands here. -/
def startsWith (c : Char) : List Char → Bool
  | [] => false
  | x :: _ => x == c

/-- Reads a string in the quotes `quote`, the first of which the cursor stands at. -/
def quoted (quote : Char) (c : Cursor) : Except Fault (String × Cursor) :=
  let (text, next) := (c.drop 1).takeUntil (startsWith quote)
  if next.rest.isEmpty then .error ⟨.unterminatedString, c.pos.line⟩
  else .ok (String.ofList text, next.drop 1)

/-- Reads the unit whose `<` the cursor stands at. -/
def unit (c : Cursor) : Except Fault (String × Cursor) :=
  let (text, next) := (c.drop 1).takeUntil fun cs => startsWith '>' cs || startsWith '\n' cs
  if startsWith '>' next.rest then .ok (trim (String.ofList text), next.drop 1)
  else .error ⟨.unterminatedUnit, c.pos.line⟩

/-- The part before the last `<` and the part after it, the latter given last character first. -/
def splitLastOpen : List Char → Option (List Char × List Char)
  | [] => none
  | '<' :: cs => some (cs, [])
  | c :: cs => (splitLastOpen cs).map fun (before, after) => (before, c :: after)

/-- Parts `12.5<KM>` into value and unit. -/
def splitUnit (text : String) : Option (String × String) :=
  match text.toList.reverse with
  | '>' :: cs =>
    (splitLastOpen cs).map fun (before, after) =>
      (trim (String.ofList before.reverse), trim (String.ofList after.reverse))
  | _ => none

/-- The value of a bare token, which may hold its unit when no blank stands between. -/
def bareScalar (text : String) : Scalar :=
  match splitUnit text with
  | some (value, unit) => ⟨value, some unit⟩
  | none => ⟨text, none⟩

/-- Reads the unit behind a value, if there is one. -/
def unit? (c : Cursor) : Except Fault (Option String × Cursor) :=
  if startsWith '<' c.rest then
    match unit c with
    | .ok (u, next) => .ok (some u, next)
    | .error e => .error e
  else .ok (none, c)

/-- Reads a bare token and the unit behind it. -/
def bare (stops : List Char) (c : Cursor) : Except Fault (Scalar × Cursor) :=
  let (run, next) := c.takeUntil (endsBare stops)
  let text := trim (String.ofList run)
  match unit? (skipSpace next) with
  | .ok (some u, next) => .ok (⟨text, some u⟩, next)
  | .ok (none, next) => .ok (bareScalar text, next)
  | .error e => .error e

/-- Reads a string in the quotes `quote` and the unit behind it. -/
def quotedScalar (quote : Char) (c : Cursor) : Except Fault (Scalar × Cursor) :=
  match quoted quote c with
  | .ok (text, next) =>
    match unit? (skipSpace next) with
    | .ok (u, next) => .ok (⟨text, u⟩, next)
    | .error e => .error e
  | .error e => .error e

/-- Reads a quoted string or a bare token that ends at one of `stops`, and the unit behind it. -/
def anyScalar (stops : List Char) (c : Cursor) : Except Fault (Scalar × Cursor) :=
  match c.rest with
  | '"' :: _ => quotedScalar '"' c
  | '\'' :: _ => quotedScalar '\'' c
  | _ => bare stops c

/-- Reads a single value, which may be empty only if it has a unit. -/
def scalar (keyword : String) (stops : List Char) (c : Cursor) : Except Fault (Scalar × Cursor) :=
  match anyScalar stops c with
  | .ok (s, next) =>
    if s.text.isEmpty && s.unit.isNone then .error ⟨.missingValue keyword, next.pos.line⟩
    else .ok (s, next)
  | .error e => .error e

/-! ## How far the cursor moves -/

theorem skipBlankFrom_length (o : Option Nat) (cs : List Char) (p : Position) {c : Cursor}
    (h : skipBlankFrom o cs p = .ok c) : c.rest.length ≤ cs.length := by
  fun_induction skipBlankFrom o cs p <;> grind

theorem skipBlank_length {c d : Cursor} (h : skipBlank c = .ok d) :
    d.rest.length ≤ c.rest.length :=
  skipBlankFrom_length none c.rest c.pos h

theorem takeUntil_length (stop : List Char → Bool) (c : Cursor) :
    (c.takeUntil stop).1.length + (c.takeUntil stop).2.rest.length = c.rest.length := by
  rw [← List.length_append, Cursor.takeUntil_append]

theorem skipSpace_length (c : Cursor) : (skipSpace c).rest.length ≤ c.rest.length := by
  have := takeUntil_length endsSpace c
  unfold skipSpace
  omega

theorem drop_length (c : Cursor) (n : Nat) : (c.drop n).rest.length = c.rest.length - n := by
  simp [Cursor.drop]

theorem quoted_length {q : Char} {c d : Cursor} {s : String} (h : quoted q c = .ok (s, d)) :
    d.rest.length < c.rest.length := by
  unfold quoted at h
  have h1 := takeUntil_length (startsWith q) (c.drop 1)
  have h2 := drop_length c 1
  simp only at h
  split at h
  · cases h
  · rename_i hne
    obtain ⟨-, rfl⟩ := Prod.mk.inj (Except.ok.inj h)
    have h3 := drop_length ((c.drop 1).takeUntil (startsWith q)).2 1
    have h4 : ((c.drop 1).takeUntil (startsWith q)).2.rest.length ≠ 0 := by
      simpa [List.isEmpty_iff_length_eq_zero] using hne
    omega

theorem unit_length {c d : Cursor} {s : String} (h : unit c = .ok (s, d)) :
    d.rest.length < c.rest.length := by
  unfold unit at h
  simp only at h
  generalize hf : (fun cs => startsWith '>' cs || startsWith '\n' cs) = f at h
  have h1 := takeUntil_length f (c.drop 1)
  have h2 := drop_length c 1
  split at h
  · rename_i hs
    obtain ⟨-, rfl⟩ := Prod.mk.inj (Except.ok.inj h)
    have h3 := drop_length ((c.drop 1).takeUntil f).2 1
    have h4 : ((c.drop 1).takeUntil f).2.rest.length ≠ 0 := by
      intro h0
      rw [List.length_eq_zero_iff] at h0
      simp [h0, startsWith] at hs
    omega
  · cases h

theorem unit?_length {c d : Cursor} {u : Option String} (h : unit? c = .ok (u, d)) :
    d.rest.length ≤ c.rest.length ∧ (u.isSome → d.rest.length < c.rest.length) := by
  unfold unit? at h
  split at h
  · split at h
    · rename_i hu
      obtain ⟨rfl, rfl⟩ := Prod.mk.inj (Except.ok.inj h)
      have := unit_length hu
      exact ⟨by omega, fun _ => this⟩
    · cases h
  · obtain ⟨rfl, rfl⟩ := Prod.mk.inj (Except.ok.inj h)
    simp

theorem quotedScalar_length {q : Char} {c d : Cursor} {s : Scalar}
    (h : quotedScalar q c = .ok (s, d)) : d.rest.length < c.rest.length := by
  unfold quotedScalar at h
  split at h
  · rename_i next hq
    split at h
    · rename_i hu
      obtain ⟨-, rfl⟩ := Prod.mk.inj (Except.ok.inj h)
      have h1 := quoted_length hq
      have h2 := skipSpace_length next
      have h3 := (unit?_length hu).1
      omega
    · cases h
  · cases h

theorem bare_length {stops : List Char} {c d : Cursor} {s : Scalar}
    (h : bare stops c = .ok (s, d)) (hs : ¬(s.text.isEmpty && s.unit.isNone)) :
    d.rest.length < c.rest.length := by
  unfold bare at h
  simp only at h
  have h1 := takeUntil_length (endsBare stops) c
  have h2 := skipSpace_length (c.takeUntil (endsBare stops)).2
  split at h
  · rename_i hu
    obtain ⟨-, rfl⟩ := Prod.mk.inj (Except.ok.inj h)
    have h3 := (unit?_length hu).2 rfl
    omega
  · rename_i hu
    obtain ⟨rfl, rfl⟩ := Prod.mk.inj (Except.ok.inj h)
    have h3 := (unit?_length hu).1
    rcases hrun : (c.takeUntil (endsBare stops)).1 with _ | ⟨x, xs⟩
    · rw [hrun] at hs
      exact absurd rfl hs
    · rw [hrun, List.length_cons] at h1
      omega
  · cases h

/-- A single value takes at least one character. -/
theorem scalar_length {keyword : String} {stops : List Char} {c d : Cursor} {s : Scalar}
    (h : scalar keyword stops c = .ok (s, d)) : d.rest.length < c.rest.length := by
  unfold scalar at h
  split at h
  · rename_i ha
    split at h
    · cases h
    · rename_i hs
      obtain ⟨rfl, rfl⟩ := Prod.mk.inj (Except.ok.inj h)
      unfold anyScalar at ha
      split at ha
      · exact quotedScalar_length ha
      · exact quotedScalar_length ha
      · exact bare_length ha hs
  · cases h

/-! ## Sets -/

/-- The bracket that ends the set which starts with `c`. -/
def closer (c : Char) : Char :=
  if c = '{' then '}' else ')'

mutual

/-- Reads a set that ends with `close` from where a member or its end is due. The sets around it end
with `outer`, innermost first, and the outermost starts in `line`. -/
def members (line : Nat) (close : Char) (outer : List Char) (c : Cursor) :
    Except Fault (List Scalar × Cursor) :=
  match _ : skipBlank c with
  | .error e => .error e
  | .ok d =>
    match _ : d.rest with
    | [] => .error ⟨.unterminatedSet, line⟩
    | x :: _ =>
      if x = close then
        match outer with
        | [] => .ok ([], d.drop 1)
        | close' :: outer' => membersAfter line close' outer' (d.drop 1)
      else if x = '{' || x = '(' then members line (closer x) (close :: outer) (d.drop 1)
      else
        match _ : scalar "set member" [',', close, '}', ')'] d with
        | .error e => .error e
        | .ok (m, e) =>
          match membersAfter line close outer e with
          | .error e => .error e
          | .ok (ms, e) => .ok (m :: ms, e)
termination_by (c.rest.length, 0)
decreasing_by
  all_goals
    have h1 := skipBlank_length ‹skipBlank c = .ok d›
    have h2 := drop_length d 1
    have h3 : d.rest.length ≠ 0 := by simp [*]
    first
    | (have h4 := scalar_length ‹scalar _ _ d = .ok _›; apply Prod.Lex.left; omega)
    | (apply Prod.Lex.left; omega)

/-- Reads the rest of a set from behind one of its members. -/
def membersAfter (line : Nat) (close : Char) (outer : List Char) (c : Cursor) :
    Except Fault (List Scalar × Cursor) :=
  match _ : skipBlank c with
  | .error e => .error e
  | .ok d =>
    match _ : d.rest with
    | [] => .error ⟨.unterminatedSet, line⟩
    | x :: _ =>
      if x = ',' then members line close outer (d.drop 1)
      else if x = close then members line close outer d
      else .error ⟨.unexpectedInSet x, d.pos.line⟩
termination_by (c.rest.length, 1)
decreasing_by
  all_goals
    have h1 := skipBlank_length ‹skipBlank c = .ok d›
    have h2 := drop_length d 1
    have h3 : d.rest.length ≠ 0 := by simp [*]
    simp only [Prod.lex_def]
    omega

end

/-- Reads the value of a statement. -/
def value (keyword : String) (c : Cursor) : Except Fault (Value × Cursor) :=
  match c.rest with
  | [] => .error ⟨.missingValue keyword, c.pos.line⟩
  | x :: _ =>
    if x = '{' || x = '(' then
      (members c.pos.line (closer x) [] (c.drop 1)).map fun (ms, d) => (.set ms, d)
    else (scalar keyword [] c).map fun (s, d) => (.scalar s, d)

end ArchiveLabels.Odl
