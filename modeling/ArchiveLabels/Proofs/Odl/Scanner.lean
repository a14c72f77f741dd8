import ArchiveLabels.Odl.Statements
import Mathlib.Data.List.Infix

/-!
# Where the reading of a piece resumes

Each piece of a legacy label is read up to its own end, whatever stands behind it, and the cursor is
moved by the characters of the piece : blanks and closed comments (`Odl.skipBlank_cons_blank`,
`Odl.skipBlank_append_comment`), keywords (`Odl.takeUntil_keyword`), strings in double quotes
(`Odl.quoted_append`) and units (`Odl.unit_append`).
-/

namespace ArchiveLabels

open Text

variable {c : Char} {cs run rest : List Char} {p : Position}

/-! ## Runs of characters -/

namespace Text.Cursor

theorem drop_one (c : Char) (cs : List Char) (p : Position) :
    (⟨c :: cs, p⟩ : Cursor).drop 1 = ⟨cs, p.after c⟩ :=
  rfl

/-- A run that nothing in it stops ends where something does. -/
theorem takeUntil_append_eq (stop : List Char → Bool) (run rest : List Char) (p : Position)
    (hrun : ∀ as x bs, run = as ++ x :: bs → stop (x :: (bs ++ rest)) = false)
    (hrest : rest = [] ∨ stop rest = true) :
    takeUntil stop ⟨run ++ rest, p⟩ = (run, ⟨rest, p.advance run⟩) := by
  unfold takeUntil
  induction run generalizing p with
  | nil =>
    rcases rest with _ | ⟨x, xs⟩
    · rfl
    · rw [List.nil_append, takeUntil.go, if_pos (hrest.resolve_left (List.cons_ne_nil x xs))]
      rfl
  | cons x run ih =>
    have hx : stop (x :: (run ++ rest)) = false := hrun [] x run rfl
    have hrun' : ∀ as y bs, run = as ++ y :: bs → stop (y :: (bs ++ rest)) = false :=
      fun as y bs h => hrun (x :: as) y bs (by rw [h, List.cons_append])
    have hgo := ih (p.after x) hrun'
    simp only at hgo
    rw [List.cons_append, takeUntil.go, if_neg (by simp [hx]), hgo]
    rfl

end Text.Cursor

namespace Odl

/-! ## Blanks and comments -/

/-- The characters hold no end of a comment. -/
def NoCommentEnd (cs : List Char) : Prop :=
  ¬['*', '/'] <:+: cs

/-- The characters hold no start of a comment. -/
def NoCommentStart (cs : List Char) : Prop :=
  ¬['/', '*'] <:+: cs

instance (cs : List Char) : Decidable (NoCommentEnd cs) :=
  inferInstanceAs (Decidable ¬_)

instance (cs : List Char) : Decidable (NoCommentStart cs) :=
  inferInstanceAs (Decidable ¬_)

theorem startsComment_eq_false (h : c ≠ '/') (cs : List Char) : startsComment (c :: cs) = false := by
  unfold startsComment
  split
  · rename_i heq
    exact absurd (List.cons.inj heq).1 h
  · rfl

theorem ne_of_isBlank {d : Char} (hc : isBlank c = true) (hd : isBlank d = false) : c ≠ d := by
  rintro rfl
  rw [hc] at hd
  cases hd

/-- A character that starts no comment is a blank or the end. -/
theorem skipBlankFrom_cons (h : startsComment (c :: cs) = false) :
    skipBlankFrom none (c :: cs) p =
      if isBlank c then skipBlankFrom none cs (p.after c) else .ok ⟨c :: cs, p⟩ := by
  rw [skipBlankFrom.eq_def]
  split <;> rename_i hmode hcs <;> cases hmode <;> cases hcs
  · cases h
  · rfl

/-- A character that does not end a comment is skipped in it. -/
theorem skipBlankFrom_some_cons {line : Nat} (h : ∀ ds, c :: cs ≠ '*' :: '/' :: ds) :
    skipBlankFrom (some line) (c :: cs) p = skipBlankFrom (some line) cs (p.after c) := by
  rw [skipBlankFrom.eq_def]
  split <;> rename_i hmode hcs <;> cases hmode <;> cases hcs
  · exact absurd rfl (h _)
  · rfl

/-- A blank in front is skipped. -/
theorem skipBlank_cons_blank (hc : isBlank c = true) (cs : List Char) (p : Position) :
    skipBlank ⟨c :: cs, p⟩ = skipBlank ⟨cs, p.after c⟩ := by
  have hslash : c ≠ '/' := ne_of_isBlank hc rfl
  simp only [skipBlank, skipBlankFrom_cons (startsComment_eq_false hslash cs), if_pos hc]

/-- Text that is neither blank nor a comment is where skipping stops. -/
theorem skipBlank_cons_of_ne (hc : isBlank c = false) (h : startsComment (c :: cs) = false) :
    skipBlank ⟨c :: cs, p⟩ = .ok ⟨c :: cs, p⟩ := by
  simp only [skipBlank, skipBlankFrom_cons h, hc, Bool.false_eq_true, if_false]

/-- Inside a comment, the cursor moves to its end. -/
theorem skipBlankFrom_some (h : NoCommentEnd run) (line : Nat) :
    skipBlankFrom (some line) (run ++ '*' :: '/' :: rest) p =
      skipBlankFrom none rest (p.advance (run ++ ['*', '/'])) := by
  induction run generalizing p with
  | nil => rfl
  | cons c run ih =>
    have hrun : NoCommentEnd run := fun h' => h (h'.trans (List.suffix_cons c run).isInfix)
    have hinside : ∀ ds, c :: (run ++ '*' :: '/' :: rest) ≠ '*' :: '/' :: ds := by
      intro ds heq
      obtain ⟨rfl, hrest⟩ := List.cons.inj heq
      rcases run with _ | ⟨d, run⟩
      · cases hrest
      · obtain ⟨rfl, -⟩ := List.cons.inj hrest
        exact h (List.prefix_append ['*', '/'] run).isInfix
    rw [List.cons_append, skipBlankFrom_some_cons hinside, ih hrun]
    rfl

/-- A closed comment is skipped with its brackets. -/
theorem skipBlank_append_comment (h : NoCommentEnd run) (rest : List Char) (p : Position) :
    skipBlank ⟨'/' :: '*' :: (run ++ '*' :: '/' :: rest), p⟩ =
      skipBlank ⟨rest, p.advance ('/' :: '*' :: (run ++ ['*', '/']))⟩ := by
  have hstart : skipBlank ⟨'/' :: '*' :: (run ++ '*' :: '/' :: rest), p⟩ =
      skipBlankFrom (some p.line) (run ++ '*' :: '/' :: rest) ((p.after '/').after '*') := rfl
  rw [hstart, skipBlankFrom_some h]
  rfl

/-! ## Spaces -/

theorem skipSpace_cons_space (cs : List Char) (p : Position) :
    skipSpace ⟨' ' :: cs, p⟩ = skipSpace ⟨cs, p.after ' '⟩ :=
  rfl

theorem skipSpace_eq_self (h : endsSpace cs = true) : skipSpace ⟨cs, p⟩ = ⟨cs, p⟩ := by
  have hrun := Cursor.takeUntil_append_eq endsSpace [] cs p
    (fun as x bs heq => by simp at heq) (.inr h)
  rw [List.nil_append] at hrun
  rw [skipSpace, hrun]
  rfl

/-! ## Keywords -/

/-- Where characters without the start of a comment end, none starts either. -/
theorem startsComment_append (h : NoCommentStart (c :: cs)) (hstar : rest.head? ≠ some '*') :
    startsComment (c :: (cs ++ rest)) = false := by
  unfold startsComment
  split
  · rename_i ds heq
    obtain ⟨rfl, hcs⟩ := List.cons.inj heq
    rcases cs with _ | ⟨x, cs⟩
    · exact absurd (by rw [← List.nil_append rest, hcs]; rfl) hstar
    · obtain ⟨rfl, -⟩ := List.cons.inj hcs
      exact absurd (List.prefix_append ['/', '*'] cs).isInfix h
  · rfl

/-- A keyword ends where `rest` starts. -/
theorem takeUntil_keyword (rest : List Char) (p : Position)
    (hblank : ∀ c ∈ run, isBlank c = false) (hequals : '=' ∉ run) (hcomment : NoCommentStart run)
    (hrest : endsKeyword rest = true) (hstar : rest.head? ≠ some '*') :
    Cursor.takeUntil endsKeyword ⟨run ++ rest, p⟩ = (run, ⟨rest, p.advance run⟩) := by
  refine Cursor.takeUntil_append_eq endsKeyword run rest p (fun as x bs heq => ?_) (.inr hrest)
  have hx : x ∈ run := heq ▸ List.mem_append_right as List.mem_cons_self
  have hstart : startsComment (x :: (bs ++ rest)) = false :=
    startsComment_append (fun h => hcomment (h.trans ⟨as, [], by rw [heq, List.append_nil]⟩)) hstar
  have hne : x ≠ '=' := fun h => hequals (h ▸ hx)
  simp [endsKeyword, hblank x hx, hne, hstart]

/-! ## Strings and units -/

/-- A string without its own quote reads back. -/
theorem quoted_append {quote : Char} (h : quote ∉ run) (rest : List Char) (p : Position) :
    quoted quote ⟨quote :: (run ++ quote :: rest), p⟩ =
      .ok (String.ofList run, ⟨rest, p.advance (quote :: (run ++ [quote]))⟩) := by
  have hrun := Cursor.takeUntil_append_eq (startsWith quote) run (quote :: rest) (p.after quote)
    (fun as x bs heq => by
      have hx : x ∈ run := heq ▸ List.mem_append_right as List.mem_cons_self
      have hne : x ≠ quote := fun h' => h (h' ▸ hx)
      simp [startsWith, hne])
    (.inr (by simp [startsWith]))
  rw [quoted, Cursor.drop_one, hrun]
  simp only [List.isEmpty_cons, Bool.false_eq_true, if_false, Cursor.drop_one]
  rw [Position.advance_cons, Position.advance_append]
  rfl

/-- A unit on one line reads back, trimmed. -/
theorem unit_append (hclose : '>' ∉ run) (hline : '\n' ∉ run) (rest : List Char) (p : Position) :
    unit ⟨'<' :: (run ++ '>' :: rest), p⟩ =
      .ok (trim (String.ofList run), ⟨rest, p.advance ('<' :: (run ++ ['>']))⟩) := by
  have hrun := Cursor.takeUntil_append_eq (fun cs => startsWith '>' cs || startsWith '\n' cs) run
    ('>' :: rest) (p.after '<')
    (fun as x bs heq => by
      have hx : x ∈ run := heq ▸ List.mem_append_right as List.mem_cons_self
      have hne : x ≠ '>' := fun h' => hclose (h' ▸ hx)
      have hne' : x ≠ '\n' := fun h' => hline (h' ▸ hx)
      simp [startsWith, hne, hne'])
    (.inr rfl)
  rw [unit, Cursor.drop_one, hrun]
  simp only [startsWith, beq_self_eq_true, if_true, Cursor.drop_one]
  rw [Position.advance_cons, Position.advance_append]
  rfl

/-! ## Sets -/

variable {line : Nat} {close : Char} {outer : List Char} {k d : Cursor} {fault : Fault}

/-- A comment left open is the fault of the set that holds it. -/
theorem members_of_fault (h : skipBlank k = .error fault) :
    members line close outer k = .error fault := by
  rw [members]
  split <;> rename_i h' <;> cases h.symm.trans h'
  rfl

theorem membersAfter_of_fault (h : skipBlank k = .error fault) :
    membersAfter line close outer k = .error fault := by
  rw [membersAfter]
  split <;> rename_i h' <;> cases h.symm.trans h'
  rfl

/-- Where a member or the end of a set is due, what comes first decides. -/
theorem members_of_skipBlank (h : skipBlank k = .ok d) : members line close outer k =
    match d.rest with
    | [] => .error ⟨.unterminatedSet, line⟩
    | x :: _ =>
      if x = close then
        match outer with
        | [] => .ok ([], d.drop 1)
        | close' :: outer' => membersAfter line close' outer' (d.drop 1)
      else if x = '{' || x = '(' then members line (closer x) (close :: outer) (d.drop 1)
      else
        match scalar "set member" [',', close, '}', ')'] d with
        | .error e => .error e
        | .ok (m, e) =>
          match membersAfter line close outer e with
          | .error e => .error e
          | .ok (ms, e) => .ok (m :: ms, e) := by
  rw [members]
  split
  · rename_i h'
    cases h.symm.trans h'
  · rename_i d' h'
    obtain rfl := Except.ok.inj (h.symm.trans h')
    split <;> rename_i hd <;> simp only [hd]
    cases scalar "set member" [',', close, '}', ')'] d <;> rfl

/-- Behind a member, there is another one or the end of the set. -/
theorem membersAfter_of_skipBlank (h : skipBlank k = .ok d) : membersAfter line close outer k =
    match d.rest with
    | [] => .error ⟨.unterminatedSet, line⟩
    | x :: _ =>
      if x = ',' then members line close outer (d.drop 1)
      else if x = close then members line close outer d
      else .error ⟨.unexpectedInSet x, d.pos.line⟩ := by
  rw [membersAfter]
  split
  · rename_i h'
    cases h.symm.trans h'
  · rename_i d' h'
    obtain rfl := Except.ok.inj (h.symm.trans h')
    split <;> rename_i hd <;> simp only [hd]

end Odl

end ArchiveLabels
