import ArchiveLabels.Proofs.Selector.Tokens

/-!
# Compiling what is written

A written selector compiles to what it says, and what compiles can be written
(`Selector.parse_reads_back`). Each piece is read up to its end whatever stands behind it, but for
one thing : behind a name test the blanks are read as well, as a test might follow them. What is
left is therefore known up to these blanks only (`Selector.Reads`); they do no harm, as blanks
behind a step stand in front of a bar or at the end, where they are skipped anyway.
-/

namespace ArchiveLabels.Selector

open Text

variable {bindings : Bindings} {axis : Axis} {c : Char} {cs ds run rest : List Char}

/-! ## Steps -/

/-- What stands behind a branch : blanks, and then a bar or nothing. -/
def BranchEnd (rest : List Char) : Prop :=
  ∀ c ∈ (trimStart rest).head?, c = '|'

/-- What stands behind a step : another slash, or what stands behind its branch. -/
def StepEnd (rest : List Char) : Prop :=
  BranchEnd rest ∨ rest.head? = some '/'

/-- What was read is `a`, and what is left is `rest`, of which the blanks in front may be read as
well : in front of a test there may be some, and that there is no test is found out behind them. -/
def Reads {α : Type} (result : Except Trouble (α × List Char)) (a : α) (rest : List Char) : Prop :=
  result = .ok (a, rest) ∨ result = .ok (a, trimStart rest)

theorem BranchEnd.trimStart (h : BranchEnd rest) : BranchEnd (trimStart rest) := by
  rwa [BranchEnd, trimStart_trimStart]

theorem BranchEnd.head? (h : BranchEnd rest) : ∀ c ∈ rest.head?, isBlank c = true ∨ c = '|' := by
  intro c hc
  cases hblank : isBlank c with
  | true => exact .inl rfl
  | false =>
    cases rest with
    | nil => cases hc
    | cons d ds =>
      cases hc
      exact .inr (h c (by rw [trimStart_cons hblank]; rfl))

theorem StepEnd.head? (h : StepEnd rest) :
    ∀ c ∈ rest.head?, isBlank c = true ∨ c = '|' ∨ c = '/' := by
  intro c hc
  rcases h with h | h
  · exact (h.head? c hc).imp_right .inl
  · rw [h] at hc
    cases hc
    exact .inr (.inr rfl)

theorem StepEnd.isTestChar_head? (h : StepEnd rest) : ∀ c ∈ rest.head?, isTestChar c = false := by
  intro c hc
  rcases h.head? c hc with hblank | rfl | rfl
  · exact isTestChar_eq_false_of_isBlank hblank
  · rfl
  · rfl

theorem StepEnd.readTest? (h : StepEnd rest) : readTest? rest = .ok (none, trimStart rest) := by
  have hbracket : ∀ cs, Text.trimStart rest ≠ '[' :: cs := by
    intro cs hcs
    rcases h with h | h
    · cases h '[' (by rw [hcs]; rfl)
    · cases rest with
      | nil => cases h
      | cons c ds =>
        cases h
        rw [trimStart_cons rfl] at hcs
        cases hcs
  unfold Selector.readTest?
  split
  · exact absurd ‹_› (hbracket _)
  · rfl

/-- A written test reads back. -/
theorem readTest?_written (w : WrittenTest) (rest : List Char) :
    readTest? (w.chars ++ rest) = .ok (some w.test, rest) := by
  have hchars : w.chars ++ rest = w.beforeOpen.chars ++ '[' :: (w.innerChars ++ rest) := by
    simp [WrittenTest.chars]
  rw [readTest?, hchars, trimStart_blanks, trimStart_cons rfl]
  simp only [readTest_written]

/-- A test reads back, and so does none. -/
theorem reads_readTest? (w : Option WrittenTest) (h : StepEnd rest) :
    Reads (readTest? (WrittenTest.optionChars w ++ rest)) (w.map WrittenTest.test) rest := by
  cases w with
  | none => exact .inr h.readTest?
  | some w => exact .inl (readTest?_written w rest)

theorem isTestChar_head?_optionChars (w : Option WrittenTest) (h : StepEnd rest) :
    ∀ c ∈ (WrittenTest.optionChars w ++ rest).head?, isTestChar c = false := by
  cases w with
  | none => exact h.isTestChar_head?
  | some w =>
    rw [WrittenTest.optionChars, WrittenTest.chars, List.append_assoc]
    refine head?_blanks _ (fun _ => isTestChar_eq_false_of_isBlank) fun c hc => ?_
    cases hc
    rfl

/-- A step downwards reads back with its axis, its name and its test. -/
theorem reads_readDown (name : WrittenName bindings) (test : Option WrittenTest) (axis : Axis)
    (h : StepEnd rest) :
    Reads (readDown bindings axis (name.chars ++ (WrittenTest.optionChars test ++ rest)))
      (.down axis name.test (test.map WrittenTest.test)) rest := by
  have hend := isTestChar_head?_optionChars test h
  have hname := nameTest_written name (WrittenTest.optionChars test ++ rest)
  simp only [readDown, takeWhile_append name.isTestChar hend, dropWhile_append name.isTestChar hend,
    List.isEmpty_iff, name.chars_ne_nil, if_false, hname]
  refine (reads_readTest? test h).imp ?_ ?_ <;>
  · intro htest
    rw [htest]

theorem readStep_of_isTestChar (hc : isTestChar c = true) (cs : List Char) :
    readStep bindings axis (c :: cs) = readDown bindings axis (c :: cs) := by
  have hdot : c ≠ '.' := by
    rintro rfl
    cases hc
  unfold readStep
  split
  · exact absurd (List.cons.inj ‹_›).1 hdot
  · rfl

/-- A written step starts with a dot or with a character of a test. -/
theorem WrittenStep.exists_chars (s : WrittenStep bindings axis) :
    ∃ c cs, s.chars = c :: cs ∧ (c = '.' ∨ isTestChar c = true) := by
  cases s with
  | here => exact ⟨_, _, rfl, .inl rfl⟩
  | up => exact ⟨_, _, rfl, .inl rfl⟩
  | down name test =>
    obtain ⟨c, cs, hcs⟩ := List.exists_cons_of_ne_nil name.chars_ne_nil
    refine ⟨c, cs ++ WrittenTest.optionChars test, by rw [chars, hcs, List.cons_append], .inr ?_⟩
    exact name.isTestChar c (by rw [hcs]; exact List.mem_cons_self)

/-- A step of any form reads back. -/
theorem reads_readStep (s : WrittenStep bindings axis) (h : StepEnd rest) :
    Reads (readStep bindings axis (s.chars ++ rest)) s.step rest := by
  cases s with
  | here =>
    refine .inl ?_
    cases rest with
    | nil => rfl
    | cons c cs =>
      -- A second dot would make it the other step.
      have hdot : c ≠ '.' := by
        rintro rfl
        rcases h.head? '.' rfl with h | h | h <;> cases h
      simp [readStep, WrittenStep.chars, WrittenStep.step, hdot]
  | up => exact .inl rfl
  | down name test =>
    obtain ⟨c, cs, hcs⟩ := List.exists_cons_of_ne_nil name.chars_ne_nil
    have hc : isTestChar c = true :=
      name.isTestChar c (by rw [hcs]; exact List.mem_cons_self)
    have hdown := reads_readDown name test axis h
    rw [WrittenStep.chars, List.append_assoc]
    rw [hcs, List.cons_append] at hdown ⊢
    rwa [readStep_of_isTestChar hc]

theorem readAxis?_eq_none (h : cs.head? ≠ some '/') : readAxis? cs = none := by
  unfold readAxis?
  split
  · exact absurd rfl h
  · exact absurd rfl h
  · rfl

theorem readAxis?_slash (h : cs.head? ≠ some '/') : readAxis? ('/' :: cs) = some (.child, cs) := by
  unfold readAxis?
  split
  · rename_i heq
    cases heq
    exact absurd rfl h
  · rename_i heq
    cases heq
    rfl
  · rename_i hne
    exact absurd rfl (hne cs)

theorem WrittenStep.head?_ne_slash (s : WrittenStep bindings axis) (rest : List Char) :
    (s.chars ++ rest).head? ≠ some '/' := by
  obtain ⟨c, cs, hcs, hc⟩ := s.exists_chars
  rw [hcs]
  rintro ⟨⟩
  rcases hc with hc | hc <;> cases hc

/-- The slashes in front of a step tell its axis. -/
theorem readAxis?_slashes (s : SlashedStep bindings) (rest : List Char) :
    readAxis? (s.chars ++ rest) = some (s.axis, s.written.chars ++ rest) := by
  obtain ⟨axis, written⟩ := s
  cases axis with
  | child => exact readAxis?_slash (written.head?_ne_slash rest)
  | descendant => rfl

/-- No further step stands where a branch ends. -/
theorem BranchEnd.readAxis? (h : BranchEnd rest) : readAxis? rest = none := by
  refine readAxis?_eq_none fun hslash => ?_
  rcases h.head? '/' hslash with h | h <;> cases h

theorem readSteps_nil (h : readAxis? cs = none) : readSteps bindings cs = .ok ([], cs) := by
  rw [readSteps]
  split
  · rfl
  · rename_i haxis
    rw [h] at haxis
    cases haxis

/-- One step and the steps behind it are the steps. -/
theorem readSteps_cons {s : Step} {ss : List Step} (haxis : readAxis? cs = some (axis, ds))
    (hstep : readStep bindings axis ds = .ok (s, run))
    (hsteps : readSteps bindings run = .ok (ss, rest)) :
    readSteps bindings cs = .ok (s :: ss, rest) := by
  rw [readSteps]
  split <;> rename_i haxis' <;> rw [haxis] at haxis' <;> cases haxis'
  split <;> rename_i hstep' <;> rw [hstep] at hstep' <;> cases hstep'
  rw [hsteps]

/-! ## Branches and unions -/

theorem stepEnd_steps (ss : List (SlashedStep bindings)) (h : BranchEnd rest) :
    StepEnd (ss.flatMap SlashedStep.chars ++ rest) := by
  cases ss with
  | nil => exact .inl h
  | cons s ss =>
    obtain ⟨axis, written⟩ := s
    refine .inr ?_
    cases axis <;> rfl

/-- Of the text of further steps none is a blank in front. -/
theorem trimStart_steps (s : SlashedStep bindings) (rest : List Char) :
    trimStart (s.chars ++ rest) = s.chars ++ rest := by
  obtain ⟨axis, written⟩ := s
  cases axis <;> exact trimStart_cons rfl

/-- Whether or not the blanks behind a step were read with it, the steps behind it are read. -/
theorem exists_reads_readSteps {result : Except Trouble (Step × List Char)} {s : Step}
    (ss : List (SlashedStep bindings)) (h : BranchEnd rest)
    (hstep : Reads result s (ss.flatMap SlashedStep.chars ++ rest))
    (hsteps : Reads (readSteps bindings (ss.flatMap SlashedStep.chars ++ rest))
      (ss.map SlashedStep.step) rest) :
    ∃ run, result = .ok (s, run) ∧ Reads (readSteps bindings run) (ss.map SlashedStep.step) rest := by
  rcases hstep with hstep | hstep
  · exact ⟨_, hstep, hsteps⟩
  · -- Either no step follows and the branch ends all the same, or a slash did and nothing was lost.
    cases ss with
    | nil => exact ⟨_, hstep, .inr (readSteps_nil h.trimStart.readAxis?)⟩
    | cons s' ss =>
      rw [List.flatMap_cons, List.append_assoc] at hstep hsteps
      rw [trimStart_steps] at hstep
      exact ⟨_, hstep, hsteps⟩

/-- The steps of a branch read back in their order. -/
theorem reads_readSteps (ss : List (SlashedStep bindings)) (h : BranchEnd rest) :
    Reads (readSteps bindings (ss.flatMap SlashedStep.chars ++ rest)) (ss.map SlashedStep.step)
      rest := by
  induction ss with
  | nil => exact .inl (readSteps_nil h.readAxis?)
  | cons s ss ih =>
    have haxis := readAxis?_slashes s (ss.flatMap SlashedStep.chars ++ rest)
    obtain ⟨run, hstep, hsteps⟩ :=
      exists_reads_readSteps ss h (reads_readStep s.written (stepEnd_steps ss h)) ih
    rw [List.flatMap_cons, List.append_assoc, List.map_cons]
    exact hsteps.imp (readSteps_cons haxis hstep) (readSteps_cons haxis hstep)

/-- A branch that starts with a slash starts at the root. -/
theorem readBranch_absolute {s : Step} {ss : List Step}
    (haxis : readAxis? (trimStart cs) = some (axis, ds))
    (hstep : readStep bindings axis ds = .ok (s, run))
    (hsteps : readSteps bindings run = .ok (ss, rest)) :
    readBranch bindings cs = .ok (⟨true, s :: ss⟩, rest) := by
  simp only [readBranch, haxis, hstep, hsteps]

/-- A branch without one starts at the context, its first step downwards to a child. -/
theorem readBranch_relative {s : Step} {ss : List Step} (haxis : readAxis? (trimStart cs) = none)
    (hstep : readStep bindings .child (trimStart cs) = .ok (s, run))
    (hsteps : readSteps bindings run = .ok (ss, rest)) :
    readBranch bindings cs = .ok (⟨false, s :: ss⟩, rest) := by
  simp only [readBranch, haxis, hstep, hsteps]

theorem trimStart_branch (b : WrittenBranch bindings) (rest : List Char) :
    trimStart (b.chars ++ rest) = b.chars ++ rest := by
  cases b with
  | relative first steps =>
    obtain ⟨c, cs, hcs, hc⟩ := first.exists_chars
    have hblank : isBlank c = false := by
      rcases hc with rfl | hc
      · rfl
      · exact isBlank_eq_false_of_isTestChar hc
    rw [WrittenBranch.chars, hcs]
    exact trimStart_cons hblank
  | absolute first steps => rw [WrittenBranch.chars, List.append_assoc, trimStart_steps]

/-- A branch reads back, whatever blanks surround it. -/
theorem reads_readBranch (b : SpacedBranch bindings) (h : BranchEnd rest) :
    Reads (readBranch bindings (b.before.chars ++ (b.written.chars ++ rest))) b.written.branch
      rest := by
  obtain ⟨before, written, behind⟩ := b
  have htrim : trimStart (before.chars ++ (written.chars ++ rest)) = written.chars ++ rest := by
    rw [trimStart_blanks, trimStart_branch]
  cases written with
  | relative first steps =>
    rw [WrittenBranch.chars, List.append_assoc] at htrim ⊢
    obtain ⟨run, hstep, hsteps⟩ := exists_reads_readSteps steps h
      (reads_readStep first (stepEnd_steps steps h)) (reads_readSteps steps h)
    have haxis := readAxis?_eq_none (first.head?_ne_slash (steps.flatMap SlashedStep.chars ++ rest))
    rw [← htrim] at haxis hstep
    exact hsteps.imp (readBranch_relative haxis hstep) (readBranch_relative haxis hstep)
  | absolute first steps =>
    rw [WrittenBranch.chars, List.append_assoc] at htrim ⊢
    obtain ⟨run, hstep, hsteps⟩ := exists_reads_readSteps steps h
      (reads_readStep first.written (stepEnd_steps steps h)) (reads_readSteps steps h)
    have haxis := readAxis?_slashes first (steps.flatMap SlashedStep.chars ++ rest)
    rw [← htrim] at haxis
    exact hsteps.imp (readBranch_absolute haxis hstep) (readBranch_absolute haxis hstep)

/-- What is left behind a reading is the rest, up to blanks in front. -/
theorem Reads.exists_left {α : Type} {result : Except Trouble (α × List Char)} {a : α}
    (h : Reads result a rest) : ∃ left, result = .ok (a, left) ∧ trimStart left = trimStart rest := by
  rcases h with h | h
  · exact ⟨_, h, rfl⟩
  · exact ⟨_, h, trimStart_trimStart rest⟩

/-- A branch that nothing follows is the last of the union. -/
theorem readUnion_last {b : Branch} (hbranch : readBranch bindings cs = .ok (b, rest))
    (hrest : trimStart rest = []) : readUnion bindings cs = .ok [b] := by
  rw [readUnion]
  split <;> rename_i hbranch' <;> rw [hbranch] at hbranch' <;> cases hbranch'
  split <;> simp_all

/-- Behind a bar the union goes on. -/
theorem readUnion_bar {b : Branch} {bs : List Branch}
    (hbranch : readBranch bindings cs = .ok (b, rest)) (hrest : trimStart rest = '|' :: ds)
    (hnext : readUnion bindings ds = .ok bs) : readUnion bindings cs = .ok (b :: bs) := by
  rw [readUnion]
  split <;> rename_i hbranch' <;> rw [hbranch] at hbranch' <;> cases hbranch'
  split <;> simp_all

/-- A union reads back branch by branch. -/
theorem readUnion_written (e : Expression bindings) :
    readUnion bindings e.chars = .ok e.branches := by
  induction e with
  | last b =>
    have hbehind : trimStart b.behind.chars = [] := by
      rw [← List.append_nil b.behind.chars, trimStart_blanks]
      rfl
    have hend : BranchEnd b.behind.chars := by
      rw [BranchEnd, hbehind]
      nofun
    obtain ⟨left, hbranch, hleft⟩ := (reads_readBranch b hend).exists_left
    exact readUnion_last hbranch (hleft.trans hbehind)
  | bar b next ih =>
    have hbehind : trimStart (b.behind.chars ++ '|' :: next.chars) = '|' :: next.chars := by
      rw [trimStart_blanks, trimStart_cons rfl]
    have hend : BranchEnd (b.behind.chars ++ '|' :: next.chars) := by
      rw [BranchEnd, hbehind]
      rintro c ⟨⟩
      rfl
    obtain ⟨left, hbranch, hleft⟩ := (reads_readBranch b hend).exists_left
    rw [Expression.chars, SpacedBranch.chars, List.append_assoc, List.append_assoc]
    exact readUnion_bar hbranch (hleft.trans hbehind) ih

theorem WrittenBranch.chars_ne_nil (b : WrittenBranch bindings) : b.chars ≠ [] := by
  cases b with
  | relative first steps =>
    obtain ⟨c, cs, hcs, -⟩ := first.exists_chars
    simp [chars, hcs]
  | absolute first steps =>
    obtain ⟨c, cs, hcs, -⟩ := first.written.exists_chars
    simp [chars, SlashedStep.chars, hcs]

theorem trimStart_expression (e : Expression bindings) : trimStart e.chars ≠ [] := by
  have hbranch (b : SpacedBranch bindings) (rest : List Char) : trimStart (b.chars ++ rest) ≠ [] := by
    rw [SpacedBranch.chars, List.append_assoc, List.append_assoc, trimStart_blanks, trimStart_branch]
    exact List.append_ne_nil_of_left_ne_nil b.written.chars_ne_nil _
  cases e with
  | last b =>
    rw [← List.append_nil (Expression.last b).chars]
    exact hbranch b []
  | bar b next => exact hbranch b _

/-- A text that is not blank parses as its union, and keeps its source. -/
theorem parse_eq_ok {source : String} {bs : List Branch} (hblank : trimStart source.toList ≠ [])
    (h : readUnion bindings source.toList = .ok bs) : parse bindings source = .ok ⟨source, bs⟩ := by
  simp only [parse, List.isEmpty_iff, hblank, if_false, h]

/-- Every written expression parses, as what it was written from. -/
theorem parse_text (e : Expression bindings) :
    parse bindings e.text = .ok ⟨e.text, e.branches⟩ := by
  have hchars : e.text.toList = e.chars := String.toList_ofList
  exact parse_eq_ok (by rw [hchars]; exact trimStart_expression e)
    (by rw [hchars]; exact readUnion_written e)

/-! ## What is compiled can be written -/

theorem exists_written_readTest? {t : Option ChildTest} (h : readTest? cs = .ok (t, rest)) :
    ∃ w : Option WrittenTest, w.map WrittenTest.test = t := by
  unfold readTest? at h
  split at h
  · split at h
    · rename_i htest
      cases h
      obtain ⟨w, rfl⟩ := exists_written_readTest htest
      exact ⟨some w, rfl⟩
    · cases h
  · cases h
    exact ⟨none, rfl⟩

theorem exists_written_readDown {s : Step} (h : readDown bindings axis cs = .ok (s, rest)) :
    ∃ w : WrittenStep bindings axis, w.step = s := by
  have htoken : ∀ c ∈ cs.takeWhile isTestChar, isTestChar c = true :=
    fun c hc => List.mem_takeWhile_imp hc
  unfold readDown at h
  simp only [List.isEmpty_iff] at h
  split at h
  · cases h
  · rename_i hne
    split at h
    · cases h
    · rename_i hname
      obtain ⟨name, rfl⟩ := exists_written_nameTest htoken hne hname
      split at h
      · cases h
      · rename_i htest
        cases h
        obtain ⟨test, rfl⟩ := exists_written_readTest? htest
        exact ⟨.down name test, rfl⟩

/-- Every step that is read can be written. -/
theorem exists_written_readStep {s : Step} (h : readStep bindings axis cs = .ok (s, rest)) :
    ∃ w : WrittenStep bindings axis, w.step = s := by
  unfold readStep at h
  split at h
  · split at h
    · cases h
    · cases h
      exact ⟨.up, rfl⟩
    · cases h
      exact ⟨.here, rfl⟩
  · exact exists_written_readDown h

theorem exists_written_readSteps {ss : List Step} (h : readSteps bindings cs = .ok (ss, rest)) :
    ∃ ws : List (SlashedStep bindings), ws.map SlashedStep.step = ss := by
  fun_induction readSteps bindings cs generalizing ss rest with
  | case1 =>
    cases h
    exact ⟨[], rfl⟩
  | case2 => cases h
  | case3 => cases h
  | case4 cs axis ds haxis s es hstep ss' rest' hsteps ih =>
    cases h
    obtain ⟨w, rfl⟩ := exists_written_readStep hstep
    obtain ⟨ws, rfl⟩ := ih hsteps
    exact ⟨⟨axis, w⟩ :: ws, rfl⟩

/-- Every branch that is read can be written. -/
theorem exists_written_readBranch {b : Branch} (h : readBranch bindings cs = .ok (b, rest)) :
    ∃ w : WrittenBranch bindings, w.branch = b := by
  unfold readBranch at h
  simp only at h
  split at h
  · cases h
  · rename_i hstep
    split at h
    · cases h
    · rename_i hsteps
      cases h
      obtain ⟨steps, rfl⟩ := exists_written_readSteps hsteps
      cases haxis : readAxis? (trimStart cs) with
      | none =>
        rw [haxis] at hstep
        obtain ⟨first, rfl⟩ := exists_written_readStep hstep
        exact ⟨.relative first steps, rfl⟩
      | some slashed =>
        rw [haxis] at hstep
        obtain ⟨first, rfl⟩ := exists_written_readStep hstep
        exact ⟨.absolute ⟨_, first⟩ steps, rfl⟩

/-- Every union that is read can be written : the reader accepts nothing outside the grammar. -/
theorem exists_written_readUnion {bs : List Branch} (h : readUnion bindings cs = .ok bs) :
    ∃ e : Expression bindings, e.branches = bs := by
  fun_induction readUnion bindings cs generalizing bs with
  | case1 => cases h
  | case2 cs b ds hbranch =>
    cases h
    obtain ⟨w, rfl⟩ := exists_written_readBranch hbranch
    exact ⟨.last ⟨.none, w, .none⟩, rfl⟩
  | case3 => cases h
  | case4 cs b ds hbranch es hbar bs' hnext ih =>
    cases h
    obtain ⟨w, rfl⟩ := exists_written_readBranch hbranch
    obtain ⟨e, rfl⟩ := ih hnext
    exact ⟨.bar ⟨.none, w, .none⟩ e, rfl⟩
  | case5 => cases h

/-- **Compiling undoes writing.** An expression, however its blanks are set, compiles to the
branches it says; and what any source compiles to can be written as an expression, each of which
compiles to it again. -/
theorem parse_reads_back (bindings : Bindings) :
    (∀ e : Expression bindings, parse bindings e.text = .ok ⟨e.text, e.branches⟩) ∧
    ∀ source s, parse bindings source = .ok s →
      (∃ e : Expression bindings, e.branches = s.branches) ∧
      ∀ e : Expression bindings, e.branches = s.branches →
        parse bindings e.text = .ok ⟨e.text, s.branches⟩ := by
  refine ⟨parse_text, fun source s h => ⟨?_, fun e he => he ▸ parse_text e⟩⟩
  unfold parse at h
  split at h
  · cases h
  · split at h
    · rename_i hunion
      cases h
      exact exists_written_readUnion hunion
    · cases h

theorem parse_reads_back_union :
    ∃ s, parse [("p", "urn:p")] " //p:a* [b = \"c\"]/..|." = .ok s ∧
      s.branches = [⟨true, [.down .descendant ⟨some "urn:p", "a*"⟩ (some ⟨"b", "c"⟩), .up]⟩,
        ⟨false, [.here]⟩] ∧
      ∃ e : Expression [("p", "urn:p")], e.branches = s.branches ∧
        parse [("p", "urn:p")] e.text = .ok ⟨e.text, s.branches⟩ := by
  have hfirst : readBranch [("p", "urn:p")] " //p:a* [b = \"c\"]/..|.".toList =
      .ok (⟨true, [.down .descendant ⟨some "urn:p", "a*"⟩ (some ⟨"b", "c"⟩), .up]⟩, ['|', '.']) :=
    readBranch_absolute rfl rfl (readSteps_cons rfl rfl (readSteps_nil rfl))
  have hsecond : readBranch [("p", "urn:p")] ['.'] = .ok (⟨false, [.here]⟩, []) :=
    readBranch_relative rfl rfl (readSteps_nil rfl)
  have hparse := parse_eq_ok (by decide) (readUnion_bar hfirst rfl (readUnion_last hsecond rfl))
  obtain ⟨⟨e, he⟩, hagain⟩ := (parse_reads_back _).2 _ _ hparse
  exact ⟨_, hparse, rfl, e, he, hagain e he⟩

end ArchiveLabels.Selector
