import ArchiveLabels.Proofs.Odl.Reading

/-!
# Reading on through a text

Every piece of a legacy label is read from a cursor to one further on in the same text
(`Cursor.LeadsTo`), and a piece that cannot be read is reported for the line of such a cursor
(`Cursor.Ahead`). So the place of a cursor always counts the characters before it
(`Position.line_advance`, `Position.column_advance`), and places never come earlier as the reading
goes on.
-/

namespace ArchiveLabels

open Text

/-! ## The order of places -/

namespace Text.Position

variable {p q r : Position} {cs : List Char}

/-- In an earlier line, or in the same line and not in a later column. -/
instance : LE Position where
  le p q := p.line < q.line ∨ p.line = q.line ∧ p.column ≤ q.column

/-- In an earlier line, or in the same line and in an earlier column. -/
instance : LT Position where
  lt p q := p.line < q.line ∨ p.line = q.line ∧ p.column < q.column

theorem le_def : p ≤ q ↔ p.line < q.line ∨ p.line = q.line ∧ p.column ≤ q.column :=
  Iff.rfl

theorem lt_def : p < q ↔ p.line < q.line ∨ p.line = q.line ∧ p.column < q.column :=
  Iff.rfl

theorem le_refl (p : Position) : p ≤ p :=
  .inr ⟨rfl, Nat.le_refl _⟩

theorem le_of_lt (h : p < q) : p ≤ q := by
  rw [lt_def] at h
  rw [le_def]
  omega

theorem lt_of_lt_of_le (h : p < q) (h' : q ≤ r) : p < r := by
  rw [lt_def] at h ⊢
  rw [le_def] at h'
  omega

theorem lt_irrefl (p : Position) : ¬p < p := by
  rw [lt_def]
  omega

theorem lt_after (p : Position) (c : Char) : p < p.after c := by
  rw [after, lt_def]
  split
  · exact .inl (Nat.lt_succ_self _)
  · exact .inr ⟨rfl, Nat.lt_succ_self _⟩

theorem le_advance (p : Position) (cs : List Char) : p ≤ p.advance cs := by
  induction cs generalizing p with
  | nil => exact le_refl p
  | cons c cs ih => exact le_of_lt (lt_of_lt_of_le (p.lt_after c) (ih _))

theorem lt_advance (p : Position) (h : cs ≠ []) : p < p.advance cs := by
  obtain ⟨c, cs, rfl⟩ := List.exists_cons_of_ne_nil h
  exact lt_of_lt_of_le (p.lt_after c) (le_advance _ cs)

/-- The line goes up by one at every line feed. -/
theorem line_advance (p : Position) (cs : List Char) :
    (p.advance cs).line = p.line + cs.count '\n' := by
  induction cs generalizing p with
  | nil => rfl
  | cons c cs ih =>
    rw [advance_cons, ih, after, List.count_cons]
    by_cases h : c = '\n'
    · simp [h]
      omega
    · simp [h]

/-- Within a line, every character takes a column. -/
theorem advance_of_not_mem (h : '\n' ∉ cs) (p : Position) :
    p.advance cs = ⟨p.line, p.column + cs.length⟩ := by
  induction cs generalizing p with
  | nil => rfl
  | cons c cs ih =>
    rw [List.mem_cons, not_or] at h
    rw [advance_cons, ih h.2, after, if_neg (Ne.symm h.1), List.length_cons]
    simp only [mk.injEq, true_and]
    omega

/-- The column counts the characters since the last line feed. -/
theorem column_advance (cs : List Char) :
    (start.advance cs).column = 1 + (cs.reverse.takeWhile fun c => c ≠ '\n').length := by
  induction cs using List.reverseRecOn with
  | nil => rfl
  | append_singleton cs c ih =>
    rw [advance_append, advance_cons, advance_nil, after, List.reverse_concat, List.takeWhile_cons]
    by_cases h : c = '\n'
    · simp [h]
    · simp [h, ih]
      omega

end Text.Position

/-! ## Cursors further on -/

namespace Text.Cursor

variable {b c d e : Cursor}

/-- Reading some characters from the cursor `c` leads to the cursor `d`. -/
def LeadsTo (c d : Cursor) : Prop :=
  ∃ run, c.rest = run ++ d.rest ∧ d.pos = c.pos.advance run

theorem LeadsTo.refl (c : Cursor) : c.LeadsTo c :=
  ⟨[], rfl, rfl⟩

theorem LeadsTo.trans (h : c.LeadsTo d) (h' : d.LeadsTo e) : c.LeadsTo e := by
  obtain ⟨run, hrest, hpos⟩ := h
  obtain ⟨run', hrest', hpos'⟩ := h'
  exact ⟨run ++ run', by rw [hrest, hrest', List.append_assoc],
    by rw [hpos', hpos, Position.advance_append]⟩

/-- The positions on the way never go back. -/
theorem LeadsTo.le (h : c.LeadsTo d) : c.pos ≤ d.pos := by
  obtain ⟨run, -, hpos⟩ := h
  rw [hpos]
  exact c.pos.le_advance run

theorem leadsTo_cons (x : Char) (xs : List Char) (p : Position) :
    LeadsTo ⟨x :: xs, p⟩ ⟨xs, p.after x⟩ :=
  ⟨[x], rfl, rfl⟩

theorem leadsTo_drop (c : Cursor) (n : Nat) : c.LeadsTo (c.drop n) :=
  ⟨c.rest.take n, (List.take_append_drop n c.rest).symm, rfl⟩

/-- A run taken off the text is passed over character by character. -/
theorem leadsTo_takeUntil (stop : List Char → Bool) (c : Cursor) :
    c.LeadsTo (c.takeUntil stop).2 :=
  ⟨(c.takeUntil stop).1, (takeUntil_append stop c).symm, takeUntil_pos stop c⟩

end Text.Cursor

namespace Odl

/-- The fault is reported for the line of a cursor further on. -/
def Fault.Within (e : Fault) (c : Cursor) : Prop :=
  ∃ d, c.LeadsTo d ∧ e.line = d.pos.line

/-- What is read from the cursor leads to a cursor further on, given by `next`; if nothing can be
read, the fault is reported for the line of such a cursor. -/
def Ahead {α : Type} (c : Cursor) (next : α → Cursor) : Except Fault α → Prop
  | .ok x => c.LeadsTo (next x)
  | .error e => e.Within c

/-- As `Ahead`, with what is `known` of every fault in place of the line it is reported for. -/
def Onward {α : Type} (c : Cursor) (next : α → Cursor) (known : Fault → Prop) :
    Except Fault α → Prop
  | .ok x => c.LeadsTo (next x)
  | .error e => known e

variable {α : Type} {b c d : Cursor} {next : α → Cursor} {r : Except Fault α} {e : Fault}
  {known : Fault → Prop} {keyword : String} {line : Nat}

/-- A fault in what lies ahead is a fault in the whole. -/
theorem Fault.within_of_leadsTo (h : c.LeadsTo d) (he : e.Within d) : e.Within c := by
  obtain ⟨d', hd', hline⟩ := he
  exact ⟨d', h.trans hd', hline⟩

/-- A reader that starts further on also moves ahead of where it is now. -/
theorem Ahead.of_leadsTo (h : c.LeadsTo d) (hr : Ahead d next r) : Ahead c next r := by
  cases r with
  | ok x => exact h.trans hr
  | error e => exact e.within_of_leadsTo h hr

theorem Ahead.leadsTo {x : α} (hr : Ahead c next r) (h : r = .ok x) : c.LeadsTo (next x) := by
  rwa [h] at hr

theorem Ahead.within (hr : Ahead c next r) (h : r = .error e) : e.Within c := by
  rwa [h] at hr

/-! ## The pieces of a statement -/

/-- Inside a comment a fault is reported for the line where it starts. -/
theorem ahead_skipBlankFrom (o : Option Nat) (cs : List Char) (p : Position)
    (h : b.LeadsTo ⟨cs, p⟩) (ho : ∀ line ∈ o, ∃ d, b.LeadsTo d ∧ line = d.pos.line) :
    Ahead b id (skipBlankFrom o cs p) := by
  fun_induction skipBlankFrom o cs p with
  | case1 p => exact h
  | case2 line p => exact ho line rfl
  | case3 cs p ih =>
    refine ih (h.trans ((Cursor.leadsTo_cons _ _ _).trans (Cursor.leadsTo_cons _ _ _))) ?_
    rintro line ⟨⟩
    exact ⟨_, h, rfl⟩
  | case4 c cs p _ _ ih => exact ih (h.trans (Cursor.leadsTo_cons _ _ _)) (by simp)
  | case5 c cs p _ _ => exact h
  | case6 line cs p ih =>
    exact ih (h.trans ((Cursor.leadsTo_cons _ _ _).trans (Cursor.leadsTo_cons _ _ _))) (by simp)
  | case7 line c cs p _ ih => exact ih (h.trans (Cursor.leadsTo_cons _ _ _)) ho

/-- Blank text is passed over forwards, and a comment left open is blamed where it opens. -/
theorem ahead_skipBlank (c : Cursor) : Ahead c id (skipBlank c) :=
  ahead_skipBlankFrom none c.rest c.pos (.refl c) (by simp)

theorem leadsTo_skipSpace (c : Cursor) : c.LeadsTo (skipSpace c) :=
  Cursor.leadsTo_takeUntil endsSpace c

/-- A quoted string ends ahead of its opening, and a fault in it lies within it. -/
theorem ahead_quoted (quote : Char) (c : Cursor) : Ahead c Prod.snd (quoted quote c) := by
  unfold quoted
  dsimp only
  split
  · exact ⟨c, .refl c, rfl⟩
  · exact ((c.leadsTo_drop 1).trans (Cursor.leadsTo_takeUntil _ _)).trans (Cursor.leadsTo_drop _ 1)

theorem ahead_unit (c : Cursor) : Ahead c Prod.snd (unit c) := by
  unfold unit
  dsimp only
  split
  · exact ((c.leadsTo_drop 1).trans (Cursor.leadsTo_takeUntil _ _)).trans (Cursor.leadsTo_drop _ 1)
  · exact ⟨c, .refl c, rfl⟩

theorem ahead_unit? (c : Cursor) : Ahead c Prod.snd (unit? c) := by
  have hunit := ahead_unit c
  unfold unit?
  split
  · split <;> rename_i h <;> rw [h] at hunit <;> exact hunit
  · exact .refl c

theorem ahead_bare (stops : List Char) (c : Cursor) : Ahead c Prod.snd (bare stops c) := by
  have hunit := (ahead_unit? (skipSpace (c.takeUntil (endsBare stops)).2)).of_leadsTo
    ((c.leadsTo_takeUntil (endsBare stops)).trans (leadsTo_skipSpace _))
  unfold bare
  dsimp only
  split <;> rename_i h <;> rw [h] at hunit <;> exact hunit

theorem ahead_quotedScalar (quote : Char) (c : Cursor) :
    Ahead c Prod.snd (quotedScalar quote c) := by
  have hquoted := ahead_quoted quote c
  unfold quotedScalar
  split
  · rename_i next h
    rw [h] at hquoted
    have hunit := (ahead_unit? (skipSpace next)).of_leadsTo
      (Cursor.LeadsTo.trans hquoted (leadsTo_skipSpace next))
    split <;> rename_i h <;> rw [h] at hunit <;> exact hunit
  · rename_i h
    rw [h] at hquoted
    exact hquoted

theorem ahead_scalar (keyword : String) (stops : List Char) (c : Cursor) :
    Ahead c Prod.snd (scalar keyword stops c) := by
  have hany : Ahead c Prod.snd (anyScalar stops c) := by
    unfold anyScalar
    split
    · exact ahead_quotedScalar _ c
    · exact ahead_quotedScalar _ c
    · exact ahead_bare stops c
  unfold scalar
  split
  · rename_i next h
    rw [h] at hany
    split
    · exact ⟨next, hany, rfl⟩
    · exact hany
  · rename_i h
    rw [h] at hany
    exact hany

mutual

/-- What is known of the faults within the text, and of a set in the given line that has no end, is
known of every fault in a set. -/
theorem onward_members (hwithin : ∀ e, e.Within b → known e)
    (hline : known ⟨.unterminatedSet, line⟩) (close : Char) (outer : List Char) (c : Cursor)
    (h : b.LeadsTo c) : Onward b Prod.snd known (members line close outer c) := by
  unfold members
  split
  · rename_i hskip
    exact hwithin _ (Fault.within_of_leadsTo h ((ahead_skipBlank _).within hskip))
  · rename_i d hskip
    have hlength := skipBlank_length hskip
    have hd := h.trans ((ahead_skipBlank _).leadsTo hskip)
    have hdrop := hd.trans (d.leadsTo_drop 1)
    split
    · exact hline
    · rename_i x xs hrest
      have hlength' := drop_length d 1
      have hne : d.rest.length ≠ 0 := by simp [hrest]
      split
      · split
        · exact hdrop
        · exact onward_membersAfter hwithin hline _ _ _ hdrop
      · split
        · exact onward_members hwithin hline _ _ _ hdrop
        · split
          · rename_i hscalar
            exact hwithin _ (Fault.within_of_leadsTo hd ((ahead_scalar _ _ _).within hscalar))
          · rename_i m e hscalar
            have hlength'' := scalar_length hscalar
            have hafter := onward_membersAfter hwithin hline close outer e
              (hd.trans ((ahead_scalar _ _ _).leadsTo hscalar))
            split <;> rename_i hms <;> rw [hms] at hafter <;> exact hafter
termination_by (c.rest.length, 0)
decreasing_by
  all_goals
    apply Prod.Lex.left
    omega

theorem onward_membersAfter (hwithin : ∀ e, e.Within b → known e)
    (hline : known ⟨.unterminatedSet, line⟩) (close : Char) (outer : List Char) (c : Cursor)
    (h : b.LeadsTo c) : Onward b Prod.snd known (membersAfter line close outer c) := by
  unfold membersAfter
  split
  · rename_i hskip
    exact hwithin _ (Fault.within_of_leadsTo h ((ahead_skipBlank _).within hskip))
  · rename_i d hskip
    have hlength := skipBlank_length hskip
    have hd := h.trans ((ahead_skipBlank _).leadsTo hskip)
    split
    · exact hline
    · rename_i x xs hrest
      have hlength' := drop_length d 1
      have hne : d.rest.length ≠ 0 := by simp [hrest]
      split
      · exact onward_members hwithin hline _ _ _ (hd.trans (d.leadsTo_drop 1))
      · split
        · exact onward_members hwithin hline _ _ _ hd
        · exact hwithin _ ⟨d, hd, rfl⟩
termination_by (c.rest.length, 1)
decreasing_by
  all_goals
    simp only [Prod.lex_def]
    omega

end

/-- Whichever line is given as that of the set, its members are read on. -/
theorem leadsTo_of_members {close : Char} {outer : List Char} {ms : List Scalar}
    (h : members line close outer c = .ok (ms, d)) : c.LeadsTo d := by
  have hread : Onward c Prod.snd (fun _ => True) (members line close outer c) :=
    onward_members (fun _ _ => trivial) trivial close outer c (.refl c)
  rwa [h] at hread

/-- A value, whatever its form, ends ahead of its start. -/
theorem ahead_value (keyword : String) (c : Cursor) : Ahead c Prod.snd (value keyword c) := by
  unfold value
  split
  · exact ⟨c, .refl c, rfl⟩
  · split
    · rename_i x _ _ _
      have hmembers : Onward c Prod.snd (Fault.Within · c)
          (members c.pos.line (closer x) [] (c.drop 1)) :=
        onward_members (fun _ he => he) ⟨c, .refl c, rfl⟩ (closer x) [] _ (c.leadsTo_drop 1)
      cases h : members c.pos.line (closer x) [] (c.drop 1) <;> rw [h] at hmembers <;>
        exact hmembers
    · have hscalar := ahead_scalar keyword [] c
      cases h : scalar keyword [] c <;> rw [h] at hscalar <;> exact hscalar

/-- The way to a value, past the equals sign and the blanks, leads forwards. -/
theorem leadsTo_of_toValue (h : toValue keyword line c = .ok d) : c.LeadsTo d := by
  unfold toValue at h
  dsimp only at h
  split at h
  · split at h
    · cases h
    · rename_i hskip
      split at h
      · cases h
        exact (leadsTo_skipSpace c).trans ((ahead_skipBlank _).leadsTo hskip)
      · cases h
  · cases h
    exact leadsTo_skipSpace c

/-- A missing value is reported for the line of its keyword. -/
theorem within_of_toValue (h : toValue keyword line c = .error e) : e.line = line ∨ e.Within c := by
  unfold toValue at h
  dsimp only at h
  split at h
  · split at h
    · rename_i hskip
      cases h
      exact .inr (Fault.within_of_leadsTo (leadsTo_skipSpace c) ((ahead_skipBlank _).within hskip))
    · split at h <;> cases h
      exact .inl rfl
  · cases h

/-! ## Statements -/

variable {pos : Position} {s : Statement} {ss : List Statement}

/-- A keyword stands where its position says, and the reading goes on behind it. -/
theorem KeywordAt.stands (h : KeywordAt c keyword pos d) :
    ∃ start, c.LeadsTo start ∧ start.pos = pos ∧ keyword.toList <+: start.rest ∧
      start.LeadsTo d ∧ pos < d.pos := by
  obtain ⟨hne, start, behind, hskip, rfl, hrun, rfl⟩ := h
  have happend := Cursor.takeUntil_append endsKeyword start
  have hbehind := start.leadsTo_takeUntil endsKeyword
  have hpos := Cursor.takeUntil_pos endsKeyword start
  rw [hrun] at happend hbehind hpos
  refine ⟨start, (ahead_skipBlank c).leadsTo hskip, rfl, ⟨behind.rest, happend⟩,
    hbehind.trans (leadsTo_skipSpace behind), ?_⟩
  refine Position.lt_of_lt_of_le ?_ (leadsTo_skipSpace behind).le
  rw [hpos]
  exact start.pos.lt_advance (by simpa using hne)

/-- A statement stands at the position it records : its keyword is read there, and it ends
further on. -/
theorem StatementAt.stands (h : StatementAt c s d) :
    ∃ start, c.LeadsTo start ∧ start.pos = s.pos ∧ s.keyword.toList <+: start.rest ∧
      start.LeadsTo d ∧ s.pos < d.pos := by
  cases h with
  | closing hkeyword _ => exact hkeyword.stands
  | assignment hkeyword _ hto hvalue =>
    obtain ⟨start, hstart, hpos, hfront, hlead, hlt⟩ := hkeyword.stands
    have hbehind := ((Cursor.leadsTo_drop _ 1).trans (leadsTo_of_toValue hto)).trans
      ((ahead_value _ _).leadsTo hvalue)
    exact ⟨start, hstart, hpos, hfront, hlead.trans hbehind,
      Position.lt_of_lt_of_le hlt hbehind.le⟩

/-- A fault in a body is on the keyword's line or within the body. -/
theorem within_of_body? (h : Statement.body? keyword pos c = .error e) :
    e.line = pos.line ∨ e.Within c := by
  unfold Statement.body? at h
  split at h
  · split at h
    · rename_i hto
      cases h
      exact (within_of_toValue hto).imp_right (Fault.within_of_leadsTo (c.leadsTo_drop 1))
    · rename_i hto
      split at h
      · rename_i hvalue
        cases h
        exact .inr (Fault.within_of_leadsTo
          ((c.leadsTo_drop 1).trans (leadsTo_of_toValue hto)) ((ahead_value _ _).within hvalue))
      · cases h
  · split at h
    · cases h
    · split at h <;> cases h
      exact .inl rfl

/-- A fault of the reader lies in the text it was given. -/
theorem within_of_next? (h : Statement.next? c = .error e) : e.Within c := by
  unfold Statement.next? at h
  split at h
  · rename_i hskip
    cases h
    exact (ahead_skipBlank c).within hskip
  · rename_i start hskip
    have hstart : c.LeadsTo start := (ahead_skipBlank c).leadsTo hskip
    split at h
    · cases h
    · simp only at h
      split at h
      · cases h
        exact ⟨start, hstart, rfl⟩
      · rcases within_of_body? h with hline | he
        · exact ⟨start, hstart, hline⟩
        · exact Fault.within_of_leadsTo
            (hstart.trans ((start.leadsTo_takeUntil _).trans (leadsTo_skipSpace _))) he

/-! ## All statements -/

/-- Each statement stands where its position says, also those in front of a fault. -/
theorem stands_of_mem_statements (h : s ∈ (Odl.statements c).1) :
    ∃ start, c.LeadsTo start ∧ start.pos = s.pos ∧ s.keyword.toList <+: start.rest := by
  fun_induction Odl.statements c with
  | case1 => cases h
  | case2 => cases h
  | case3 c s' d hnext ss fault hss ih =>
    obtain ⟨start, hstart, hpos, hfront, hlead, -⟩ := (next?_eq_some_iff.mp hnext).stands
    rcases List.mem_cons.mp h with rfl | h
    · exact ⟨start, hstart, hpos, hfront⟩
    · rw [hss] at ih
      obtain ⟨start', hstart', hrest⟩ := ih h
      exact ⟨start', (hstart.trans hlead).trans hstart', hrest⟩

/-- The fault that stops the statements lies in the text. -/
theorem within_of_statements (h : e ∈ (Odl.statements c).2) : e.Within c := by
  fun_induction Odl.statements c with
  | case1 c e' hnext =>
    cases h
    exact within_of_next? hnext
  | case2 => cases h
  | case3 c s d hnext ss fault hss ih =>
    obtain ⟨start, hstart, -, -, hlead, -⟩ := (next?_eq_some_iff.mp hnext).stands
    rw [hss] at ih
    exact Fault.within_of_leadsTo (hstart.trans hlead) (ih h)

/-- Statements stand one behind the other. -/
theorem Reads.pairwise (h : Reads c ss) : ss.Pairwise fun s s' => s.pos < s'.pos := by
  induction h with
  | done => exact .nil
  | @next c d s ss h hss ih =>
    obtain ⟨-, -, -, -, -, hlt⟩ := h.stands
    refine ih.cons fun s' hs' => ?_
    have hmem : s' ∈ (Odl.statements d).1 := by rwa [reads_iff.mp hss]
    obtain ⟨start, hstart, hpos, -⟩ := stands_of_mem_statements hmem
    exact Position.lt_of_lt_of_le hlt (hpos ▸ hstart.le)

end Odl

end ArchiveLabels
