import ArchiveLabels.Proofs.Report.Totals
import Mathlib.Algebra.BigOperators.Group.List.Basic

/-!
# The totals of a report as a sum

Totals are added count by count, and those of a report are the sum of what each item adds
(`Totals.tally_eq_sum`), so that neither the order of the items nor that of the problems of an item
matters. Between two levels of the report only the warnings and the remarks differ : an item has the
same status and as many errors at every level (`Totals.Extends`, `Totals.extends_tally`). Both are
put together in `Totals.tally_orderFree`.
-/

namespace ArchiveLabels

/-! ## One item -/

namespace Assessment

variable {level other : Severity} {ps qs : List Problem}

/-- The order of the problems of an item does not matter. -/
theorem ofProblems_perm (level : Severity) (h : ps.Perm qs) :
    ofProblems level ps = ofProblems level qs := by
  have hcount (s : Severity) : countOf s (counted level ps) = countOf s (counted level qs) :=
    (h.filter _).countP_eq _
  have hstructural : ps.any Problem.isStructural = qs.any Problem.isStructural := h.any_eq
  simp only [ofProblems, hcount, hstructural]

/-- Counting within a level counts all of a severity or none. -/
theorem countOf_counted (s level : Severity) (ps : List Problem) :
    countOf s (counted level ps) = if s.isWithin level then countOf s ps else 0 := by
  rw [countOf, counted, List.countP_filter]
  split
  · rename_i hs
    refine List.countP_congr fun p _ => ?_
    simp only [Bool.and_eq_true, decide_eq_true_eq, and_iff_left_iff_imp]
    rintro rfl
    exact hs
  · rename_i hs
    refine List.countP_eq_zero.mpr fun p _ => ?_
    simp only [Bool.and_eq_true, decide_eq_true_eq, not_and]
    rintro rfl
    exact hs

/-- A less severe level counts at least as many problems. -/
theorem countOf_counted_le (h : level.rank ≤ other.rank) (s : Severity) (ps : List Problem) :
    countOf s (counted level ps) ≤ countOf s (counted other ps) := by
  have hwithin : s.isWithin level = true → s.isWithin other = true := by
    simp only [Severity.isWithin, decide_eq_true_eq]
    exact fun hs => Nat.le_trans hs h
  rw [countOf_counted, countOf_counted]
  split
  · rename_i hs
    exact Nat.le_of_eq (if_pos (hwithin hs)).symm
  · exact Nat.zero_le _

/-- Errors count at every level. -/
theorem errors_ofProblems (level : Severity) (ps : List Problem) :
    (ofProblems level ps).errors = countOf .error ps := by
  have hwithin : Severity.error.isWithin level = true := by cases level <;> rfl
  exact (countOf_counted .error level ps).trans (if_pos hwithin)

/-- The level changes no status. -/
theorem status_ofProblems (level other : Severity) (ps : List Problem) :
    (ofProblems level ps).status = (ofProblems other ps).status := by
  have herrors : countOf .error (counted level ps) = countOf .error (counted other ps) :=
    (errors_ofProblems level ps).trans (errors_ofProblems other ps).symm
  simp only [ofProblems, herrors]

end Assessment

namespace Totals

/-! ## Adding totals -/

/-- Totals are added count by count. -/
instance : Add Totals where
  add a b := ⟨a.passed + b.passed, a.failed + b.failed, a.skipped + b.skipped, a.errors + b.errors,
    a.warnings + b.warnings, a.infos + b.infos⟩

instance : Zero Totals where
  zero := zero

theorem add_def (a b : Totals) : a + b =
    ⟨a.passed + b.passed, a.failed + b.failed, a.skipped + b.skipped, a.errors + b.errors,
      a.warnings + b.warnings, a.infos + b.infos⟩ :=
  rfl

theorem zero_def : (0 : Totals) = ⟨0, 0, 0, 0, 0, 0⟩ :=
  rfl

instance : AddCommMonoid Totals where
  add_assoc a b c := by simp only [add_def, Nat.add_assoc]
  zero_add a := by simp only [add_def, zero_def, Nat.zero_add]
  add_zero a := by simp only [add_def, zero_def, Nat.add_zero]
  add_comm a b := by simp only [add_def, Nat.add_comm]
  nsmul := nsmulRec

/-- What one item adds. -/
theorem add_eq_add (t : Totals) (a : Assessment) : t.add a = t + add 0 a := by
  cases h : a.status <;> simp [add, h, add_def, zero_def]

/-- The totals of a report are the sum of what each item adds. -/
theorem tally_eq_sum (level : Severity) (items : List (List Problem)) :
    tally level items = (items.map fun ps => add 0 (.ofProblems level ps)).sum := by
  have hfold (t : Totals) : items.foldl (fun t ps => t.add (.ofProblems level ps)) t =
      t + (items.map fun ps => add 0 (.ofProblems level ps)).sum := by
    induction items generalizing t with
    | nil => exact (add_zero t).symm
    | cons ps items ih =>
      rw [List.foldl_cons, ih, add_eq_add, List.map_cons, List.sum_cons, add_assoc]
  exact (hfold 0).trans (zero_add _)

/-- One item adds its assessment. -/
theorem tally_cons (level : Severity) (ps : List Problem) (items : List (List Problem)) :
    tally level (ps :: items) = add 0 (.ofProblems level ps) + tally level items := by
  rw [tally_eq_sum, tally_eq_sum, List.map_cons, List.sum_cons]

/-- Two batches add up. -/
theorem tally_append (level : Severity) (as bs : List (List Problem)) :
    tally level (as ++ bs) = tally level as + tally level bs := by
  simp only [tally_eq_sum, List.map_append, List.sum_append]

/-- The order of the items does not matter. -/
theorem tally_perm {as bs : List (List Problem)} (level : Severity) (h : as.Perm bs) :
    tally level as = tally level bs := by
  rw [tally_eq_sum, tally_eq_sum]
  exact (h.map _).sum_eq

/-- The order of the problems within an item does not matter. -/
theorem tally_perm_inside {as bs : List (List Problem)} (level : Severity)
    (h : List.Forall₂ List.Perm as bs) : tally level as = tally level bs := by
  induction h with
  | nil => rfl
  | cons hps _ ih => rw [tally_cons, tally_cons, Assessment.ofProblems_perm level hps, ih]

/-! ## Totals at two levels -/

/-- The second totals count the same items and errors, and no fewer warnings and remarks. -/
structure Extends (a b : Totals) : Prop where
  passed : b.passed = a.passed
  failed : b.failed = a.failed
  skipped : b.skipped = a.skipped
  errors : b.errors = a.errors
  warnings : a.warnings ≤ b.warnings
  infos : a.infos ≤ b.infos

theorem Extends.add {a b c d : Totals} (hab : Extends a b) (hcd : Extends c d) :
    Extends (a + c) (b + d) where
  passed := congrArg₂ _ hab.passed hcd.passed
  failed := congrArg₂ _ hab.failed hcd.failed
  skipped := congrArg₂ _ hab.skipped hcd.skipped
  errors := congrArg₂ _ hab.errors hcd.errors
  warnings := Nat.add_le_add hab.warnings hcd.warnings
  infos := Nat.add_le_add hab.infos hcd.infos

/-- An item has the same status and as many errors at a less severe level. -/
theorem extends_ofProblems {level other : Severity} (h : level.rank ≤ other.rank)
    (ps : List Problem) :
    Extends (Totals.add 0 (.ofProblems level ps)) (Totals.add 0 (.ofProblems other ps)) := by
  have hstatus := Assessment.status_ofProblems other level ps
  have herrors :
      (Assessment.ofProblems other ps).errors = (Assessment.ofProblems level ps).errors :=
    (Assessment.errors_ofProblems other ps).trans (Assessment.errors_ofProblems level ps).symm
  have hwarnings :
      (Assessment.ofProblems level ps).warnings ≤ (Assessment.ofProblems other ps).warnings :=
    Assessment.countOf_counted_le h .warning ps
  have hinfos : (Assessment.ofProblems level ps).infos ≤ (Assessment.ofProblems other ps).infos :=
    Assessment.countOf_counted_le h .info ps
  cases hs : (Assessment.ofProblems level ps).status <;>
    constructor <;> simp [Totals.add, hstatus, hs, zero_def, herrors, hwarnings, hinfos]

/-- A wider level counts no less, and the same items. -/
theorem extends_tally {level other : Severity} (h : level.rank ≤ other.rank)
    (items : List (List Problem)) : Extends (tally level items) (tally other items) := by
  induction items with
  | nil => exact ⟨rfl, rfl, rfl, rfl, Nat.le_refl _, Nat.le_refl _⟩
  | cons ps items ih =>
    rw [tally_cons, tally_cons]
    exact (extends_ofProblems h ps).add ih

/-- **The totals are a sum in no order.** They depend neither on the order of the items nor on that
of the problems in an item, they add up over lists put together, and each item counts once. Another
level of the report changes no status and no error, and a less severe one takes away no warning and
no remark. -/
theorem tally_orderFree (level : Severity) (items : List (List Problem)) :
    (∀ items', items.Perm items' → tally level items' = tally level items) ∧
    (∀ items', List.Forall₂ List.Perm items items' → tally level items' = tally level items) ∧
    (∀ more, tally level (items ++ more) = tally level items + tally level more) ∧
    (tally level items).passed + (tally level items).failed + (tally level items).skipped =
      items.length ∧
    ∀ other,
      (tally other items).passed = (tally level items).passed ∧
      (tally other items).failed = (tally level items).failed ∧
      (tally other items).skipped = (tally level items).skipped ∧
      (tally other items).errors = (tally level items).errors ∧
      (level.rank ≤ other.rank → (tally level items).warnings ≤ (tally other items).warnings ∧
        (tally level items).infos ≤ (tally other items).infos) := by
  refine ⟨fun _ h => (tally_perm level h).symm, fun _ h => (tally_perm_inside level h).symm,
    tally_append level items, total_tally level items, fun other => ?_⟩
  rcases Nat.le_total level.rank other.rank with h | h
  · have he := extends_tally h items
    exact ⟨he.passed, he.failed, he.skipped, he.errors, fun _ => ⟨he.warnings, he.infos⟩⟩
  · have he := extends_tally h items
    refine ⟨he.passed.symm, he.failed.symm, he.skipped.symm, he.errors.symm, fun h' => ?_⟩
    have he' := extends_tally h' items
    exact ⟨he'.warnings, he'.infos⟩

/-- An item with a warning and an error, and one that is no label although only a remark says so :
in either order of both, the level decides on the warning alone. -/
theorem tally_orderFree_mixed :
    let warning := Problem.ofKind .titleTooLong "long" "a.xml"
    let error := Problem.ofKind .malformedReference "bad" "a.xml"
    let remark := (Problem.ofKind .invalidLabel "none" "b.xml").withSeverity .info
    let items := [[warning, error], [remark]]
    (items.Perm [[remark], [warning, error]] ∧
      tally .error [[remark], [warning, error]] = tally .error items) ∧
    (List.Forall₂ List.Perm items [[error, warning], [remark]] ∧
      tally .error [[error, warning], [remark]] = tally .error items) ∧
    (Severity.error.rank ≤ Severity.info.rank ∧
      (tally .error items).warnings ≤ (tally .info items).warnings ∧
      (tally .error items).infos ≤ (tally .info items).infos) ∧
    tally .error items = ⟨0, 1, 1, 1, 0, 0⟩ ∧ tally .info items = ⟨0, 1, 1, 1, 1, 0⟩ := by
  intro warning error remark items
  obtain ⟨hperm, hinside, -, -, hlevel⟩ := tally_orderFree .error items
  have hswap : items.Perm [[remark], [warning, error]] := .swap _ _ _
  have hswapInside : List.Forall₂ List.Perm items [[error, warning], [remark]] :=
    .cons (.swap _ _ _) (.cons (.refl _) .nil)
  exact ⟨⟨hswap, hperm _ hswap⟩, ⟨hswapInside, hinside _ hswapInside⟩,
    ⟨by decide, (hlevel .info).2.2.2.2 (by decide)⟩, rfl, rfl⟩

end Totals

end ArchiveLabels
