import ArchiveLabels.Proofs.Odl.Spelling

/-!
# Every spelling of a value reads alike

A value is read alike from each of its spellings, and so is a label of which every statement has a
line of its own (`readLabel_respelled`). Where the reading of a value stops depends on the
spelling : a bare token takes in the spaces behind it. That makes no difference to what is read
next, which skips blanks first.
-/

namespace ArchiveLabels.Odl

open Text Label

variable {m : Measure} {gap run rest stops : List Char} {p : Position} {keyword : String}

/-! ## Spaces -/

theorem Spaces.isBlank (s : Spaces) : ∀ c ∈ s.chars, isBlank c = true := by
  intro c hc
  rcases s.isSpace c hc with rfl | rfl <;> rfl

theorem skipBlank_blanks (h : ∀ c ∈ run, isBlank c = true) (rest : List Char) (p : Position) :
    skipBlank ⟨run ++ rest, p⟩ = skipBlank ⟨rest, p.advance run⟩ := by
  induction run generalizing p with
  | nil => rfl
  | cons c run ih =>
    rw [List.cons_append, skipBlank_cons_blank (h c List.mem_cons_self), Position.advance_cons,
      ih fun d hd => h d (List.mem_cons_of_mem c hd)]

theorem skipSpace_spaces (s : Spaces) (h : endsSpace rest = true) (p : Position) :
    skipSpace ⟨s.chars ++ rest, p⟩ = ⟨rest, p.advance s.chars⟩ := by
  have hrun := Cursor.takeUntil_append_eq endsSpace s.chars rest p
    (fun as x bs heq => by
      have hx : x ∈ s.chars := heq ▸ List.mem_append_right as List.mem_cons_self
      rcases s.isSpace x hx with rfl | rfl <;> rfl)
    (.inr h)
  rw [skipSpace, hrun]

/-! ## Bare tokens -/

/-- Here ends a value of a set with the stops, or of a statement if there are none. -/
structure EndsValue (stops rest : List Char) : Prop where
  ends : EndsQuantity rest
  endsBare : endsBare stops rest = true
  noStar : rest.head? ≠ some '*'

/-- None of the stops occurs in a spelling of the value. -/
def Measure.Avoids (m : Measure) (stops : List Char) : Prop :=
  ∀ c ∈ stops, c ∉ m.value.chars ∧ (∀ u ∈ m.unit, c ∉ u.chars) ∧ c ∉ [' ', '\t', '<', '>']

/-- A bare word runs to the end of its value, whatever stops it there. -/
theorem takeUntil_bare (hline : ∀ c ∈ run, c ≠ '\n' ∧ c ≠ '\r') (hstops : ∀ c ∈ run, c ∉ stops)
    (hcomment : NoCommentStart run) (hrest : EndsValue stops rest) (p : Position) :
    Cursor.takeUntil (endsBare stops) ⟨run ++ rest, p⟩ = (run, ⟨rest, p.advance run⟩) := by
  refine Cursor.takeUntil_append_eq _ run rest p (fun as x bs heq => ?_) (.inr hrest.endsBare)
  have hx : x ∈ run := heq ▸ List.mem_append_right as List.mem_cons_self
  have hstart : startsComment (x :: (bs ++ rest)) = false :=
    startsComment_append (fun h => hcomment (h.trans ⟨as, [], by rw [heq, List.append_nil]⟩))
      hrest.noStar
  simp [endsBare, hline x hx, hstops x hx, hstart]

theorem noCommentStart_append_of_not_mem {as bs : List Char} (has : '/' ∉ as)
    (hbs : NoCommentStart bs) : NoCommentStart (as ++ bs) := by
  induction as with
  | nil => exact hbs
  | cons c as ih =>
    rw [List.mem_cons, not_or] at has
    rw [List.cons_append]
    exact noCommentStart_cons.mpr ⟨startsComment_eq_false (Ne.symm has.1) _, ih has.2⟩

/-- The characters of a bare measure : its value's, its unit's, the gap's, and the brackets. -/
theorem mem_bareChars {c : Char} (h : c ∈ m.bareChars gap) :
    c ∈ m.value.chars ∨ (∃ u ∈ m.unit, c ∈ u.chars) ∨ c ∈ gap ∨ c ∈ ['<', '>'] := by
  rw [Measure.bareChars, Measure.unitChars] at h
  cases hunit : m.unit with
  | none => exact .inl (by simpa [hunit] using h)
  | some u =>
    simp only [hunit, List.mem_append, List.mem_cons, List.not_mem_nil, or_false] at h
    rcases h with h | h | rfl | h | rfl
    · exact .inl h
    · exact .inr (.inr (.inl h))
    · exact .inr (.inr (.inr (by decide)))
    · exact .inr (.inl ⟨u, rfl, h⟩)
    · exact .inr (.inr (.inr (by decide)))

/-- A bare measure starts no comment, also with the spaces behind it. -/
theorem noCommentStart_bareChars (hgap : ∀ c ∈ gap, c = ' ') (tail : Spaces) :
    NoCommentStart (m.bareChars gap ++ tail.chars) := by
  have hunit : NoCommentStart (m.unitChars gap) ∧ (m.unitChars gap).head? ≠ some '*' := by
    rw [Measure.unitChars]
    cases m.unit with
    | none => exact ⟨noCommentStart_of_not_mem List.not_mem_nil, by simp⟩
    | some u =>
      have hu : NoCommentStart (u.chars ++ ['>']) :=
        u.noComment.append (noCommentStart_of_not_mem (by decide)) (by decide)
      have hopen : NoCommentStart ('<' :: (u.chars ++ ['>'])) :=
        noCommentStart_cons.mpr ⟨startsComment_eq_false (by decide) _, hu⟩
      refine ⟨noCommentStart_append_of_not_mem (fun h => by cases hgap _ h) hopen, ?_⟩
      rcases gap with _ | ⟨c, gap⟩
      · simp
      · simp [hgap c List.mem_cons_self]
  refine (m.value.noComment.append hunit.1 hunit.2).append (noCommentStart_of_not_mem fun h => ?_)
    fun h => ?_
  · rcases tail.isSpace _ h with h | h <;> cases h
  · rcases tail.isSpace _ (List.mem_of_mem_head? h) with h | h <;> cases h

/-- A bare value is read with the spaces behind it, up to where it ends. -/
theorem bare_measure (hgap : ∀ c ∈ gap, c = ' ') (hstops : m.Avoids stops) (tail : Spaces)
    (hrest : EndsValue stops rest) (p : Position) :
    bare stops ⟨m.bareChars gap ++ (tail.chars ++ rest), p⟩ =
      .ok (m.scalar, ⟨rest, p.advance (m.bareChars gap ++ tail.chars)⟩) := by
  have hmem : ∀ c ∈ m.bareChars gap ++ tail.chars, c ∈ m.value.chars ∨
      (∃ u ∈ m.unit, c ∈ u.chars) ∨ c ∈ [' ', '\t', '<', '>'] := by
    intro c hc
    rcases List.mem_append.mp hc with hc | hc
    · rcases mem_bareChars hc with hc | hc | hc | hc
      · exact .inl hc
      · exact .inr (.inl hc)
      · exact .inr (.inr (by simp [hgap c hc]))
      · exact .inr (.inr (by simp_all))
    · exact .inr (.inr (by rcases tail.isSpace c hc with rfl | rfl <;> decide))
  have hline : ∀ c ∈ m.bareChars gap ++ tail.chars, c ≠ '\n' ∧ c ≠ '\r' := by
    intro c hc
    constructor <;> rintro rfl
    · rcases hmem _ hc with hc | ⟨u, -, hc⟩ | hc
      · exact m.value.noLineEnd hc
      · exact u.noLineEnd hc
      · revert hc
        decide
    · rcases hmem _ hc with hc | ⟨u, -, hc⟩ | hc
      · exact m.value.noReturn hc
      · exact u.noReturn hc
      · revert hc
        decide
  have hnoStop : ∀ c ∈ m.bareChars gap ++ tail.chars, c ∉ stops := by
    intro c hc hstop
    obtain ⟨hvalue, hunit, hother⟩ := hstops c hstop
    rcases hmem c hc with hc | ⟨u, hu, hc⟩ | hc
    · exact hvalue hc
    · exact hunit u hu hc
    · exact hother hc
  have htrim : trim (String.ofList (m.bareChars gap ++ tail.chars)) =
      String.ofList (m.bareChars gap) := by
    rw [trim, String.toList_ofList,
      trimChars_append Measure.bareChars_ne_nil Measure.trimmed_bareChars tail.isBlank]
  have hunit := unit?_none (p := p.advance (m.bareChars gap ++ tail.chars)) hrest.ends
  rw [bare, ← List.append_assoc, takeUntil_bare hline hnoStop (noCommentStart_bareChars hgap tail)
    hrest]
  simp only [hunit, htrim]
  rw [bareScalar_measure m fun c hc => hgap c hc ▸ rfl]

/-! ## Values -/

/-- A value in quotes is read up to where its quotes or its unit end, and what is behind it are
blanks. -/
theorem quotedScalar_tail (q : Quantity) (tail : Spaces) (hrest : EndsQuantity rest)
    (p : Position) :
    ∃ d, quotedScalar '"' ⟨q.chars ++ (tail.chars ++ rest), p⟩ = .ok (q.scalar, d) ∧
      skipBlank d = skipBlank ⟨rest, p.advance (q.chars ++ tail.chars)⟩ := by
  have hunit : ∃ d, unit? (skipSpace ⟨Quantity.unitChars q.unit ++ (tail.chars ++ rest),
        p.advance q.value.quoted⟩) = .ok (q.unit.map fun u => String.ofList u.chars, d) ∧
      skipBlank d = skipBlank ⟨rest, p.advance (q.chars ++ tail.chars)⟩ := by
    rw [Quantity.chars, Position.advance_append, Position.advance_append]
    cases q.unit with
    | none =>
      have hnone := unit?_none (p := (p.advance q.value.quoted).advance tail.chars) hrest
      rw [skipSpace_eq_self hrest.1] at hnone
      refine ⟨_, ?_, rfl⟩
      rw [Quantity.unitChars, List.nil_append, skipSpace_spaces tail hrest.1, hnone]
      rfl
    | some u => exact ⟨_, unit?_some u _ _, skipBlank_blanks tail.isBlank rest _⟩
  obtain ⟨d, hd, hskip⟩ := hunit
  exact ⟨d, quotedScalar_of_unit? q hd, hskip⟩

/-- The first character of a spelling is no blank and starts no set. -/
theorem exists_cons_chars (m : Measure) (spelling : Spelling) :
    ∃ c cs, m.chars spelling = c :: cs ∧ isBlank c = false ∧ c ≠ '{' ∧ c ≠ '(' ∧
      (c = '"' ∨ c ∈ m.value.chars) := by
  obtain ⟨c, cs, hcs⟩ := List.exists_cons_of_ne_nil m.value.ne_nil
  have hblank : isBlank c = false := head_of_trimmed m.value.trimmed c (by rw [hcs]; rfl)
  have hbare := m.value.startsBare c (by rw [hcs]; rfl)
  simp only [List.mem_cons, List.not_mem_nil, or_false, not_or] at hbare
  have hmem : c ∈ m.value.chars := hcs ▸ List.mem_cons_self
  cases spelling with
  | quoted => exact ⟨'"', _, rfl, rfl, by decide, by decide, .inl rfl⟩
  | spaced =>
    exact ⟨c, cs ++ m.unitChars [' '], by rw [Measure.chars, Measure.bareChars, hcs]; rfl, hblank,
      hbare.2.1, hbare.2.2, .inr hmem⟩
  | joined =>
    exact ⟨c, cs ++ m.unitChars [], by rw [Measure.chars, Measure.bareChars, hcs]; rfl, hblank,
      hbare.2.1, hbare.2.2, .inr hmem⟩

/-- A bare measure opens no quote, so it is read as a bare word. -/
theorem anyScalar_bare (m : Measure) (gap rest stops : List Char) (p : Position) :
    anyScalar stops ⟨m.bareChars gap ++ rest, p⟩ = bare stops ⟨m.bareChars gap ++ rest, p⟩ := by
  obtain ⟨c, cs, hcs⟩ := List.exists_cons_of_ne_nil m.value.ne_nil
  have hquote : c ≠ '"' := fun h => m.value.noQuote (hcs ▸ h ▸ List.mem_cons_self)
  have hbare := m.value.startsBare c (by rw [hcs]; rfl)
  simp only [List.mem_cons, List.not_mem_nil, or_false, not_or] at hbare
  rw [Measure.bareChars, hcs, anyScalar]
  split
  · rename_i heq
    exact absurd (List.cons.inj heq).1 hquote
  · rename_i heq
    exact absurd (List.cons.inj heq).1 hbare.1
  · rfl

/-- A value is read from any of its spellings, and what is behind it are blanks. -/
theorem scalar_measure (keyword : String) (m : Measure) (spelling : Spelling)
    (hstops : m.Avoids stops) (tail : Spaces) (hrest : EndsValue stops rest) (p : Position) :
    ∃ d, scalar keyword stops ⟨m.chars spelling ++ (tail.chars ++ rest), p⟩ = .ok (m.scalar, d) ∧
      skipBlank d = skipBlank ⟨rest, p.advance (m.chars spelling ++ tail.chars)⟩ := by
  have hany : ∃ d, anyScalar stops ⟨m.chars spelling ++ (tail.chars ++ rest), p⟩ =
      .ok (m.scalar, d) ∧
      skipBlank d = skipBlank ⟨rest, p.advance (m.chars spelling ++ tail.chars)⟩ := by
    cases spelling with
    | quoted =>
      rw [← m.scalar_quantity_eq]
      exact quotedScalar_tail m.quantity tail hrest.ends p
    | spaced =>
      exact ⟨_, (anyScalar_bare m _ _ _ p).trans
        (bare_measure (fun c hc => List.mem_singleton.mp hc) hstops tail hrest p), rfl⟩
    | joined =>
      exact ⟨_, (anyScalar_bare m _ _ _ p).trans
        (bare_measure (List.forall_mem_nil _) hstops tail hrest p), rfl⟩
  obtain ⟨d, hd, hskip⟩ := hany
  have hne : m.scalar.text.isEmpty = false := by
    simp [Measure.scalar, m.value.ne_nil]
  refine ⟨d, ?_, hskip⟩
  rw [scalar, hd]
  simp only [hne, Bool.false_and, Bool.false_eq_true, if_false]

/-! ## Sets -/

/-- No member of a set has a character that would end it. -/
theorem Member.avoids (m : Member) : m.Avoids [',', '}', '}', ')'] := by
  intro c hc
  have hc' : c ∈ [',', '}', ')'] := by simpa using hc
  refine ⟨(m.noStop c hc').1, (m.noStop c hc').2, ?_⟩
  simp only [List.mem_cons, List.not_mem_nil, or_false] at hc'
  rcases hc' with rfl | rfl | rfl <;> decide

theorem endsValue_membersChars (ms : List SpelledMember) (rest : List Char) :
    EndsValue [',', '}', '}', ')'] (SpelledValue.membersChars ms ++ rest) := by
  cases ms <;> exact ⟨⟨rfl, rfl⟩, rfl, by simp [SpelledValue.membersChars]⟩

/-- A spelling starts with no comment, as the value and what is behind it do not. -/
theorem skipBlank_chars (m : Measure) (spelling : Spelling) (tail : Spaces)
    (hstar : rest.head? ≠ some '*') (p : Position) :
    skipBlank ⟨m.chars spelling ++ (tail.chars ++ rest), p⟩ =
      .ok ⟨m.chars spelling ++ (tail.chars ++ rest), p⟩ := by
  have hbare {gap : List Char} (hgap : ∀ c ∈ gap, c = ' ') :
      skipBlank ⟨m.bareChars gap ++ (tail.chars ++ rest), p⟩ =
        .ok ⟨m.bareChars gap ++ (tail.chars ++ rest), p⟩ := by
    have hcomment := noCommentStart_bareChars (m := m) hgap tail
    rw [← List.append_assoc]
    obtain ⟨c, cs, hcs⟩ := List.exists_cons_of_ne_nil m.value.ne_nil
    have hblank : isBlank c = false := head_of_trimmed m.value.trimmed c (by rw [hcs]; rfl)
    rw [Measure.bareChars, hcs] at hcomment ⊢
    exact skipBlank_cons_of_ne hblank (startsComment_append hcomment hstar)
  cases spelling with
  | quoted => exact skipBlank_cons rfl (by decide)
  | spaced => exact hbare fun c hc => List.mem_singleton.mp hc
  | joined => exact hbare (List.forall_mem_nil _)

/-- Where a member is due, it is read from its spelling, and then what is behind it. -/
theorem members_spelledMember (line : Nat) {c d : Cursor} {xs : List Scalar} (m : SpelledMember)
    (ms : List SpelledMember)
    (h : skipBlank c = skipBlank ⟨m.chars ++ (SpelledValue.membersChars ms ++ rest), p⟩)
    (hafter : ∀ e, skipBlank e = skipBlank ⟨SpelledValue.membersChars ms ++ rest,
      p.advance m.chars⟩ → membersAfter line '}' [] e = .ok (xs, d)) :
    members line '}' [] c = .ok (m.member.scalar :: xs, d) := by
  have hrest := endsValue_membersChars ms rest
  have hskip : skipBlank c = .ok ⟨m.member.chars m.spelling ++ (m.behind.chars ++
      (SpelledValue.membersChars ms ++ rest)), p.advance m.before.chars⟩ := by
    rw [h, SpelledMember.chars, List.append_assoc, List.append_assoc,
      skipBlank_blanks m.before.isBlank, skipBlank_chars _ _ _ hrest.noStar]
  obtain ⟨e, hscalar, he⟩ := scalar_measure "set member" m.member.toMeasure m.spelling
    m.member.avoids m.behind hrest (p.advance m.before.chars)
  rw [← Position.advance_append] at he
  obtain ⟨x, cs, hcs, -, hopen, hopen', hx⟩ := exists_cons_chars m.member.toMeasure m.spelling
  have hclose : x ≠ '}' := by
    rintro rfl
    exact hx.elim (by decide) (m.member.noStop '}' (by decide)).1
  rw [members_of_skipBlank hskip, hscalar, hcs]
  simp only [List.cons_append, hclose, hopen, hopen', decide_false, Bool.or_self,
    Bool.false_eq_true, if_false, hafter e he]

/-- The members read back the same, however each is spelled and spaced. -/
theorem membersAfter_spelled (line : Nat) (ms : List SpelledMember) {c : Cursor}
    (h : skipBlank c = skipBlank ⟨SpelledValue.membersChars ms ++ rest, p⟩) :
    membersAfter line '}' [] c = .ok (ms.map fun m => m.member.scalar,
      ⟨rest, p.advance (SpelledValue.membersChars ms)⟩) := by
  induction ms generalizing c p with
  | nil =>
    rw [membersAfter_of_skipBlank (h.trans (skipBlank_cons rfl (by decide)))]
    exact members_close line rest p
  | cons m ms ih =>
    rw [SpelledValue.membersChars, List.cons_append, List.append_assoc] at h
    rw [membersAfter_of_skipBlank (h.trans (skipBlank_cons rfl (by decide)))]
    simp only [Cursor.drop_one, if_true]
    rw [members_spelledMember line m ms rfl fun e he => ih he]
    simp only [SpelledValue.membersChars, List.map_cons, Position.advance_cons,
      Position.advance_append]

/-! ## Statements -/

/-- What stands behind an equals sign is read from any of its spellings. -/
theorem value_spelled (keyword : String) (v : SpelledValue) (tail : Spaces)
    (hrest : EndsValue [] rest) (p : Position) :
    ∃ d, value keyword ⟨v.chars ++ (tail.chars ++ rest), p⟩ = .ok (v.value, d) ∧
      skipBlank d = skipBlank ⟨rest, p.advance (v.chars ++ tail.chars)⟩ := by
  cases v with
  | single m spelling =>
    obtain ⟨d, hd, hskip⟩ := scalar_measure keyword m spelling (List.forall_mem_nil _) tail hrest p
    obtain ⟨x, cs, hcs, -, hopen, hopen', -⟩ := exists_cons_chars m spelling
    refine ⟨d, ?_, hskip⟩
    rw [SpelledValue.chars, value, hd, hcs]
    simp only [List.cons_append, hopen, hopen', decide_false, Bool.or_self, Bool.false_eq_true,
      if_false]
    rfl
  | empty inside =>
    have hclose (q : Position) : skipBlank ⟨inside.chars ++ '}' :: (tail.chars ++ rest), q⟩ =
        skipBlank ⟨'}' :: (tail.chars ++ rest), q.advance inside.chars⟩ :=
      skipBlank_blanks inside.isBlank _ q
    have hmembers : members p.line '}' []
        ⟨inside.chars ++ '}' :: (tail.chars ++ rest), p.after '{'⟩ =
          .ok ([], ⟨tail.chars ++ rest, p.advance (SpelledValue.empty inside).chars⟩) := by
      rw [members_of_skipBlank ((hclose _).trans (skipBlank_cons rfl (by decide))),
        SpelledValue.chars, Position.advance_cons, Position.advance_append]
      rfl
    refine ⟨_, ?_, (skipBlank_blanks tail.isBlank rest _).trans (by rw [Position.advance_append])⟩
    rw [SpelledValue.chars, value]
    simp only [List.cons_append, List.append_assoc, List.nil_append, decide_true, Bool.true_or,
      if_true, Cursor.drop_one, closer, hmembers]
    rfl
  | set m ms =>
    have hmembers : members p.line '}' []
        ⟨m.chars ++ (SpelledValue.membersChars ms ++ (tail.chars ++ rest)), p.after '{'⟩ =
          .ok (m.member.scalar :: ms.map fun m => m.member.scalar,
            ⟨tail.chars ++ rest, p.advance (SpelledValue.set m ms).chars⟩) := by
      rw [SpelledValue.chars, Position.advance_cons, Position.advance_append]
      exact members_spelledMember p.line m ms rfl fun e he => membersAfter_spelled p.line ms he
    refine ⟨_, ?_, (skipBlank_blanks tail.isBlank rest _).trans (by rw [Position.advance_append])⟩
    rw [SpelledValue.chars, value]
    simp only [List.cons_append, List.append_assoc, decide_true, Bool.true_or, if_true,
      Cursor.drop_one, closer, hmembers]
    rfl

/-- A spelled value starts with a character that is not blank. -/
theorem exists_cons_value (v : SpelledValue) : ∃ c cs, v.chars = c :: cs ∧ isBlank c = false := by
  cases v with
  | single m spelling =>
    obtain ⟨c, cs, hcs, hblank, -⟩ := exists_cons_chars m spelling
    exact ⟨c, cs, hcs, hblank⟩
  | empty inside => exact ⟨'{', _, rfl, rfl⟩
  | set m ms => exact ⟨'{', _, rfl, rfl⟩

/-- The value is found behind any spaces. -/
theorem toValue_spelled (keyword : String) (line : Nat) (behind : Spaces) (v : SpelledValue)
    (rest : List Char) (p : Position) :
    toValue keyword line ⟨behind.chars ++ (v.chars ++ rest), p⟩ =
      .ok ⟨v.chars ++ rest, p.advance behind.chars⟩ := by
  obtain ⟨c, cs, hcs, hblank⟩ := exists_cons_value v
  have hstart : endsSpace (v.chars ++ rest) = true ∧ endsLine (v.chars ++ rest) = false := by
    have hne {d : Char} (hd : isBlank d = true) : c ≠ d := (ne_of_isBlank hd hblank).symm
    rw [hcs, List.cons_append]
    constructor
    · unfold endsSpace
      split
      · rename_i heq
        exact absurd (List.cons.inj heq).1 (hne rfl)
      · rename_i heq
        exact absurd (List.cons.inj heq).1 (hne rfl)
      · rfl
    · simp [endsLine, hne (d := '\n') rfl, hne (d := '\r') rfl]
  rw [toValue, skipSpace_spaces behind hstart.1]
  simp only [hstart.2, Bool.false_eq_true, if_false]

/-- The keyword is found behind any indent, and ends before its spaces. -/
theorem keywordAt_spaces (indent before : Spaces) (k : Keyword) (rest : List Char) (p : Position) :
    KeywordAt ⟨indent.chars ++ (k.chars ++ (before.chars ++ '=' :: rest)), p⟩ k.text
      (p.advance indent.chars)
      ⟨'=' :: rest, p.advance (indent.chars ++ (k.chars ++ before.chars))⟩ := by
  have hends : endsKeyword (before.chars ++ '=' :: rest) = true ∧
      (before.chars ++ '=' :: rest).head? ≠ some '*' := by
    rcases hbefore : before.chars with _ | ⟨c, cs⟩
    · exact ⟨rfl, by simp⟩
    · rcases before.isSpace c (hbefore ▸ List.mem_cons_self) with rfl | rfl <;>
        exact ⟨rfl, by simp⟩
  have hkeyword := takeUntil_keyword (before.chars ++ '=' :: rest) (p.advance indent.chars)
    k.noBlank k.noEquals k.noComment hends.1 hends.2
  rw [Position.advance_append, Position.advance_append]
  refine ⟨by simp [Keyword.text, k.ne_nil], _, _,
    (skipBlank_blanks indent.isBlank _ p).trans (skipBlank_keyword k hends.2), rfl, ?_,
    skipSpace_spaces before rfl _⟩
  rw [hkeyword, Keyword.text, String.toList_ofList]

/-- A line is read as its statement, and what is behind it are blanks. -/
theorem statementAt_line (l : Line) (hrest : EndsValue [] rest) (p : Position) :
    ∃ d, StatementAt ⟨l.chars ++ rest, p⟩
        ⟨l.keyword.text, some l.value.value, p.advance l.indent.chars⟩ d ∧
      skipBlank d = skipBlank ⟨rest, p.advance l.chars⟩ := by
  obtain ⟨d, hvalue, hskip⟩ := value_spelled l.keyword.text l.value l.tail hrest
    (((p.advance (l.indent.chars ++ (l.keyword.chars ++ l.before.chars))).after '=').advance
      l.behind.chars)
  refine ⟨d, ?_, ?_⟩
  · simp only [Line.chars, List.append_assoc, List.cons_append]
    exact .assignment (keywordAt_spaces l.indent l.before l.keyword.toKeyword _ p) rfl
      (toValue_spelled _ _ l.behind l.value _ _) hvalue
  · rw [hskip]
    simp only [Line.chars, Position.advance_append, Position.advance_cons]

/-! ## Pages -/

theorem Spaces.noLineEnd (s : Spaces) : '\n' ∉ s.chars := by
  intro h
  rcases s.isSpace _ h with h | h <;> cases h

theorem Measure.noLineEnd (m : Measure) (spelling : Spelling) : '\n' ∉ m.chars spelling := by
  have hbare {gap : List Char} (hgap : '\n' ∉ gap) : '\n' ∉ m.bareChars gap := by
    intro h
    rcases mem_bareChars h with h | ⟨u, -, h⟩ | h | h
    · exact m.value.noLineEnd h
    · exact u.noLineEnd h
    · exact hgap h
    · revert h
      decide
  cases spelling with
  | quoted =>
    have hunit (o : Option UnitName) : '\n' ∉ Quantity.unitChars o := by
      cases o with
      | none => exact List.not_mem_nil
      | some u => simp [Quantity.unitChars, u.noLineEnd]
    simp [chars, Quantity.chars, quantity, Quotable.quoted, m.value.noLineEnd, hunit]
  | spaced => exact hbare (by decide)
  | joined => exact hbare List.not_mem_nil

theorem SpelledMember.noLineEnd (m : SpelledMember) : '\n' ∉ m.chars := by
  simp [chars, m.before.noLineEnd, m.member.noLineEnd, m.behind.noLineEnd]

theorem SpelledValue.noLineEnd (v : SpelledValue) : '\n' ∉ v.chars := by
  have hmembers (ms : List SpelledMember) : '\n' ∉ membersChars ms := by
    induction ms with
    | nil => decide
    | cons m ms ih => simp [membersChars, m.noLineEnd, ih]
  cases v with
  | single m spelling => exact m.noLineEnd spelling
  | empty inside => simp [chars, inside.noLineEnd]
  | set m ms => simp [chars, m.noLineEnd, hmembers]

/-- A line holds no line end of its own. -/
theorem Line.noLineEnd (l : Line) : '\n' ∉ l.chars := by
  have hkeyword : '\n' ∉ l.keyword.chars := fun h => Bool.noConfusion (l.keyword.noBlank _ h)
  simp [chars, l.indent.noLineEnd, hkeyword, l.before.noLineEnd, l.behind.noLineEnd,
    l.value.noLineEnd, l.tail.noLineEnd]

theorem endsValue_nil : EndsValue [] [] :=
  ⟨⟨rfl, rfl⟩, rfl, by simp⟩

/-- A line end ends a value. -/
theorem endsValue_lineEnd (ending : LineEnd) (rest : List Char) :
    EndsValue [] (ending.chars ++ rest) := by
  cases ending <;> exact ⟨⟨rfl, rfl⟩, rfl, by simp [LineEnd.chars]⟩

/-- A line is read as its statement, whatever the spelling of its value. -/
theorem statements_line (l : Line) (hrest : EndsValue [] rest) (n : Nat) :
    statements ⟨l.chars ++ rest, ⟨n, 1⟩⟩ =
      (l.statement n :: (statements ⟨rest, ⟨n, 1 + l.chars.length⟩⟩).1,
        (statements ⟨rest, ⟨n, 1 + l.chars.length⟩⟩).2) := by
  obtain ⟨d, hd, hskip⟩ := statementAt_line l hrest ⟨n, 1⟩
  have hindent : '\n' ∉ l.indent.chars := fun h => l.noLineEnd (List.mem_append_left _ h)
  rw [Position.advance_of_not_mem hindent, Nat.add_comm 1] at hd
  rw [Position.advance_of_not_mem (l.noLineEnd)] at hskip
  rw [statements_eq, next?_eq_some_iff.mpr hd]
  simp only [statements_congr hskip]
  rfl

/-- The lines of a page are read as its statements. -/
theorem statements_page (g : Page) (n : Nat) :
    statements ⟨g.chars, ⟨n, 1⟩⟩ = (g.statements n, none) := by
  induction g generalizing n with
  | done ending => exact statements_ending ending _
  | last l =>
    have hline := statements_line l endsValue_nil n
    have hnil (p : Position) : statements ⟨[], p⟩ = ([], none) := statements_ending .nothing p
    rw [List.append_nil, hnil] at hline
    exact hline
  | line l ending next ih =>
    have hending : statements ⟨ending.chars ++ next.chars, ⟨n, 1 + l.chars.length⟩⟩ =
        statements ⟨next.chars, ⟨n + 1, 1⟩⟩ := by
      refine statements_congr ?_
      cases ending <;> rfl
    rw [Page.chars, statements_line l (endsValue_lineEnd ending _) n, hending, ih]
    rfl

namespace Nesting

/-- Statements that concern no block put all their nodes under the same node. -/
theorem addAll_plain {ss : List Statement} (h : ∀ s ∈ ss, s.Plain) (n : Nesting) :
    n.addAll ss = .ok (n.withNodes (ss.flatMap fun s => s.nodes n.parent)) := by
  induction ss generalizing n with
  | nil => rw [List.flatMap_nil, withNodes_nil]; rfl
  | cons s ss ih =>
    rw [addAll_cons (n.add_plain (h s List.mem_cons_self)),
      ih fun t ht => h t (List.mem_cons_of_mem s ht), withNodes_withNodes]
    rfl

end Nesting

/-- A page opens no block. -/
theorem Page.plain_of_mem_statements (g : Page) {n : Nat} {s : Statement}
    (h : s ∈ g.statements n) : s.Plain := by
  have hline (l : Line) (n : Nat) : (l.statement n).Plain := plain_assignment l.keyword _ _
  induction g generalizing n with
  | done => cases h
  | last l => exact List.mem_singleton.mp h ▸ hline l n
  | line l ending next ih =>
    rcases List.mem_cons.mp h with rfl | h
    · exact hline l n
    · exact ih h

/-- A page is read as its tree. -/
theorem readLabel_page (g : Page) : readLabel (String.ofList g.chars) = .ok g.tree := by
  refine readLabel_eq_ok_iff.mpr ⟨g.statements 1, reads_iff.mpr ?_, ?_⟩
  · rw [Cursor.ofString, String.toList_ofList]
    exact statements_page g 1
  · rw [Nesting.addAll_plain fun s hs => g.plain_of_mem_statements hs]
    simp [Nesting.withNodes, Nesting.empty, Nesting.parent, Page.tree, rootNode, Tree.singleton]

/-- **Quoted and bare spellings agree.** Of statements of one line each, the text with every value
in quotes and the text with each value in any of its spellings are both labels, and of the same
tree. -/
theorem readLabel_respelled (g : Page) :
    readLabel (String.ofList g.quoted.chars) = .ok g.tree ∧
      readLabel (String.ofList g.chars) = .ok g.tree := by
  have htree : g.quoted.tree = g.tree := by
    rw [Page.tree, Page.tree, g.statements_quoted]
  exact ⟨htree ▸ readLabel_page g.quoted, readLabel_page g⟩

end ArchiveLabels.Odl
