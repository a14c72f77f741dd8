import ArchiveLabels.Proofs.Odl.Nested

/-!
# Which texts are labels

What a text says up to its end, told rule by rule : `StatementAt` is one statement, a keyword with
an equals sign and a value or a closing without them, `EndsAt` the end of the text or a bare `END`,
and `Reads` all statements up to there. A text is a label just if it can be read so and its
statements are properly nested, and its tree is then that of the statements
(`readLabel_nested`).
-/

namespace ArchiveLabels.Odl

open Text Label

variable {c d e : Cursor} {keyword : String} {pos : Position} {s : Statement}
  {ss : List Statement} {t : Tree} {text : String}

/-! ## One statement -/

/-- Behind blanks and comments the keyword stands at `pos`; the cursor `d` is behind it and the
spaces that follow it. -/
def KeywordAt (c : Cursor) (keyword : String) (pos : Position) (d : Cursor) : Prop :=
  keyword ≠ "" ∧ ∃ start behind, skipBlank c = .ok start ∧ start.pos = pos ∧
    start.takeUntil endsKeyword = (keyword.toList, behind) ∧ skipSpace behind = d

/-- The label ends here. -/
inductive EndsAt : Cursor → Prop
  /-- The text ends. -/
  | text {c d : Cursor} (h : skipBlank c = .ok d) (hrest : d.rest = []) : EndsAt c
  /-- A bare `END`, whatever stands behind it. -/
  | stop {c d : Cursor} {pos : Position} (h : KeywordAt c "END" pos d)
    (hbare : startsWith '=' d.rest = false) : EndsAt c

/-- The statement stands here, and the cursor behind it is the last argument. -/
inductive StatementAt : Cursor → Statement → Cursor → Prop
  /-- A keyword, an equals sign and a value. -/
  | assignment {c d e f : Cursor} {keyword : String} {pos : Position} {v : Value}
    (h : KeywordAt c keyword pos d) (hequals : startsWith '=' d.rest = true)
    (hto : toValue keyword pos.line (d.drop 1) = .ok e) (hvalue : value keyword e = .ok (v, f)) :
    StatementAt c ⟨keyword, some v, pos⟩ f
  /-- The end of a block that leaves out the name. -/
  | closing {c d : Cursor} {kind : BlockKind} {pos : Position} (h : KeywordAt c kind.closing pos d)
    (hbare : startsWith '=' d.rest = false) : StatementAt c ⟨kind.closing, none, pos⟩ d

/-- Once the keyword is read, what follows depends on the body alone. -/
theorem next?_of_keywordAt (h : KeywordAt c keyword pos d) :
    Statement.next? c = Statement.body? keyword pos d := by
  obtain ⟨hne, start, behind, hskip, rfl, hrun, rfl⟩ := h
  have hrest : start.rest.isEmpty = false := by
    have happend := Cursor.takeUntil_append endsKeyword start
    rw [hrun] at happend
    rw [← happend]
    simp [hne]
  rw [Statement.next?, hskip]
  simp [hrest, hrun, hne]

/-- A statement read without fault is the end of the text, or a keyword and its body. -/
theorem next?_cases {x : Option (Statement × Cursor)} (h : Statement.next? c = .ok x) :
    (∃ d, skipBlank c = .ok d ∧ d.rest = [] ∧ x = none) ∨
    ∃ keyword pos d, KeywordAt c keyword pos d ∧ Statement.body? keyword pos d = .ok x := by
  unfold Statement.next? at h
  split at h
  · cases h
  · rename_i start hskip
    split at h
    · rename_i hrest
      cases h
      exact .inl ⟨start, hskip, List.isEmpty_iff.mp hrest, rfl⟩
    · simp only at h
      split at h
      · cases h
      · rename_i hne
        refine .inr ⟨_, _, _, ⟨?_, start, _, hskip, rfl, ?_, rfl⟩, h⟩
        · simpa using hne
        · rw [String.toList_ofList]

/-- The reader finds a statement exactly where one stands. -/
theorem next?_eq_some_iff : Statement.next? c = .ok (some (s, d)) ↔ StatementAt c s d := by
  constructor
  · intro h
    rcases next?_cases h with ⟨-, -, -, hx⟩ | ⟨keyword, pos, e, hkeyword, hbody⟩
    · cases hx
    · unfold Statement.body? at hbody
      split at hbody
      · rename_i hequals
        split at hbody
        · cases hbody
        · rename_i hto
          split at hbody
          · cases hbody
          · rename_i hvalue
            cases hbody
            exact .assignment hkeyword hequals hto hvalue
      · rename_i hbare
        split at hbody
        · cases hbody
        · split at hbody
          · rename_i kind hrole
            cases hbody
            obtain rfl := eq_closing_of_role hrole
            exact .closing hkeyword (by simpa using hbare)
          · cases hbody
  · intro h
    cases h with
    | assignment hkeyword hequals hto hvalue =>
      rw [next?_of_keywordAt hkeyword, Statement.body?, if_pos hequals, hto]
      simp only [hvalue]
    | closing hkeyword hbare =>
      rename_i kind _
      have hne : kind.closing ≠ "END" := by cases kind <;> decide
      rw [next?_of_keywordAt hkeyword, Statement.body?, hbare, if_neg Bool.false_ne_true,
        if_neg hne, role_closing]

/-- The reader finds the end exactly where only blank text is left. -/
theorem next?_eq_none_iff : Statement.next? c = .ok none ↔ EndsAt c := by
  constructor
  · intro h
    rcases next?_cases h with ⟨d, hskip, hrest, -⟩ | ⟨keyword, pos, d, hkeyword, hbody⟩
    · exact .text hskip hrest
    · unfold Statement.body? at hbody
      split at hbody
      · split at hbody
        · cases hbody
        · split at hbody <;> cases hbody
      · rename_i hbare
        split at hbody
        · rename_i hend
          subst hend
          exact .stop hkeyword (by simpa using hbare)
        · split at hbody <;> cases hbody
  · intro h
    cases h with
    | text hskip hrest => rw [Statement.next?, hskip]; simp [hrest]
    | stop hkeyword hbare => rw [next?_of_keywordAt hkeyword, Statement.body?, hbare]; rfl

/-! ## All statements -/

/-- The text from the cursor on reads as the statements, up to its end. -/
inductive Reads : Cursor → List Statement → Prop
  /-- The label ends. -/
  | done {c : Cursor} (h : EndsAt c) : Reads c []
  /-- A statement, and what is behind it. -/
  | next {c d : Cursor} {s : Statement} {ss : List Statement} (h : StatementAt c s d)
    (hss : Reads d ss) : Reads c (s :: ss)

/-- The statements a text reads as are those the reader collects, when no fault stops it. -/
theorem reads_iff : Reads c ss ↔ Odl.statements c = (ss, none) := by
  constructor
  · intro h
    induction h with
    | done h => rw [statements_eq, next?_eq_none_iff.mpr h]
    | next h _ ih => rw [statements_eq, next?_eq_some_iff.mpr h]; simp only [ih]
  · intro h
    induction ss generalizing c with
    | nil =>
      rw [statements_eq] at h
      split at h
      · cases h
      · rename_i hnext
        exact .done (next?_eq_none_iff.mp hnext)
      · cases h
    | cons s ss ih =>
      rw [statements_eq] at h
      split at h
      · cases h
      · cases h
      · rename_i d hnext
        obtain ⟨hcons, hfault⟩ := Prod.mk.inj h
        obtain ⟨rfl, hss⟩ := List.cons.inj hcons
        exact .next (next?_eq_some_iff.mp hnext) (ih (Prod.ext hss hfault))

/-- A label is read exactly when its statements are, and they close all they open. -/
theorem readLabel_eq_ok_iff : readLabel text = .ok t ↔ ∃ ss, Reads (.ofString text) ss ∧
    Nesting.empty.addAll ss = .ok ⟨t, []⟩ := by
  simp only [reads_iff]
  unfold readLabel
  constructor
  · intro h
    simp only at h
    split at h
    · cases h
    · rename_i n hn
      split at h
      · cases h
      · rename_i hfault
        obtain ⟨tree, _ | ⟨b, bs⟩⟩ := n
        · cases h
          exact ⟨_, Prod.ext rfl hfault, hn⟩
        · cases h
  · rintro ⟨ss, hss, hn⟩
    simp only [hss, hn]
    rfl

/-! ## Labels -/

/-- **Blocks are accepted just if they nest.** A text is a label if and only if its statements up to
the end or a bare `END` can be read and are properly nested. Its tree is the one that has the nodes
of these statements and no others, each under the innermost block open at its statement. -/
theorem readLabel_nested (text : String) :
    ((∃ t, readLabel text = .ok t) ↔ ∃ ss, Reads (.ofString text) ss ∧ Nested ss) ∧
    ∀ t, readLabel text = .ok t ↔
      ∃ ss, Reads (.ofString text) ss ∧ Nested ss ∧ IsTreeOf ss t := by
  have hbuilt {t ss} (h : Nesting.empty.addAll ss = .ok ⟨t, []⟩) : Nested ss ∧ IsTreeOf ss t := by
    obtain ⟨htree, hleaves⟩ := Nesting.builds_empty.addAll h
    cases hleaves with
    | none hss => exact ⟨hss, htree⟩
  have hadded {ss} (h : Nested ss) : ∃ t, Nesting.empty.addAll ss = .ok ⟨t, []⟩ := by
    obtain ⟨⟨t, blocks⟩, hadd, hblocks⟩ := Nesting.addAll_nested h .empty
    obtain rfl : blocks = [] := hblocks
    exact ⟨t, hadd⟩
  refine ⟨⟨?_, ?_⟩, fun t => ⟨?_, ?_⟩⟩
  · rintro ⟨t, ht⟩
    obtain ⟨ss, hreads, hadd⟩ := readLabel_eq_ok_iff.mp ht
    exact ⟨ss, hreads, (hbuilt hadd).1⟩
  · rintro ⟨ss, hreads, hnested⟩
    obtain ⟨t, hadd⟩ := hadded hnested
    exact ⟨t, readLabel_eq_ok_iff.mpr ⟨ss, hreads, hadd⟩⟩
  · intro ht
    obtain ⟨ss, hreads, hadd⟩ := readLabel_eq_ok_iff.mp ht
    exact ⟨ss, hreads, hbuilt hadd⟩
  · rintro ⟨ss, hreads, hnested, htree⟩
    obtain ⟨t', hadd⟩ := hadded hnested
    obtain rfl : t' = t := (hbuilt hadd).2.unique htree
    exact readLabel_eq_ok_iff.mpr ⟨ss, hreads, hadd⟩

end ArchiveLabels.Odl
