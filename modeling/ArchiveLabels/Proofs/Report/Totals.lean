import ArchiveLabels.Report.Writer

/-!
# What the totals of a report count

A report counts its items by their status (`Report.count_eq_countP`). The status of an item is told
by its problems whatever the level of the report is, as errors count at every level
(`Assessment.status_eq_fail_iff`).
-/

namespace ArchiveLabels

/-! ## One item -/

namespace Assessment

variable {level : Severity} {ps : List Problem}

/-- An item is skipped when it has a structural problem. -/
theorem status_eq_skip_iff :
    (ofProblems level ps).status = .skip ↔ ∃ p ∈ ps, p.isStructural = true := by
  rw [ofProblems, ← List.any_eq_true]
  dsimp only
  split
  · simp_all
  · split <;> simp_all

theorem status_ne_skip (h : ∀ p ∈ ps, p.isStructural = false) :
    (ofProblems level ps).status ≠ .skip := by
  rw [Ne, status_eq_skip_iff]
  rintro ⟨p, hp, hs⟩
  rw [h p hp] at hs
  cases hs

/-- Errors count at every level. -/
theorem countOf_error_pos_iff (level : Severity) (ps : List Problem) :
    0 < countOf .error (counted level ps) ↔ ∃ p ∈ ps, p.severity = .error := by
  have hwithin : Severity.error.isWithin level = true := by cases level <;> rfl
  simp only [countOf, counted, List.countP_pos_iff, List.mem_filter, decide_eq_true_eq]
  constructor
  · rintro ⟨p, ⟨hp, -⟩, hs⟩
    exact ⟨p, hp, hs⟩
  · rintro ⟨p, hp, hs⟩
    exact ⟨p, ⟨hp, hs ▸ hwithin⟩, hs⟩

/-- An item without one fails when it has an error. -/
theorem status_eq_fail_iff (h : ∀ p ∈ ps, p.isStructural = false) :
    (ofProblems level ps).status = .fail ↔ ∃ p ∈ ps, p.severity = .error := by
  have hany : ps.any Problem.isStructural = false := by simpa using h
  rw [← countOf_error_pos_iff level, ofProblems, hany, if_neg Bool.false_ne_true]
  by_cases hc : 0 < countOf .error (counted level ps) <;> simp [hc]

end Assessment

/-! ## All items -/

namespace Totals

/-- The number of items of a status. -/
def count (t : Totals) : Status → Nat
  | .pass => t.passed
  | .fail => t.failed
  | .skip => t.skipped

/-- What an item adds to, if it is such an item, counts these items. -/
theorem eq_countP_of_add {f : Totals → Nat} {p : Assessment → Bool} (hzero : f zero = 0)
    (hadd : ∀ t a, f (t.add a) = f t + if p a then 1 else 0) (level : Severity)
    (items : List (List Problem)) :
    f (tally level items) = items.countP fun ps => p (.ofProblems level ps) := by
  have hfold (t : Totals) : f (items.foldl (fun t ps => t.add (.ofProblems level ps)) t) =
      f t + items.countP fun ps => p (.ofProblems level ps) := by
    induction items generalizing t with
    | nil => rfl
    | cons ps items ih => rw [List.foldl_cons, ih, hadd, List.countP_cons, Nat.add_right_comm,
        Nat.add_assoc]
  rw [tally, hfold, hzero, Nat.zero_add]

/-- Each status is counted over the items. -/
theorem count_tally (level : Severity) (items : List (List Problem)) (s : Status) :
    (tally level items).count s =
      items.countP fun ps => (Assessment.ofProblems level ps).status = s := by
  refine eq_countP_of_add (f := fun t => t.count s) (p := fun a => a.status = s)
    (by cases s <;> rfl) (fun t a => ?_) level items
  cases h : a.status <;> cases s <;> simp [add, h, count]

/-- Each item is counted once : it passes, fails or is skipped. -/
theorem total_tally (level : Severity) (items : List (List Problem)) :
    (tally level items).total = items.length := by
  rw [← List.countP_true]
  refine eq_countP_of_add (f := total) (p := fun _ => true) rfl (fun t a => ?_) level items
  cases h : a.status <;> simp [add, h, total, validated] <;> omega

end Totals

namespace Report

variable (level : Severity) (header : ReportHeader) (items : List (String × List Problem))
  (crawl : Statistics)

/-- The totals of a report count the items that it shows, by their status. -/
theorem count_eq_countP (s : Status) : (ofItems level header items crawl).summary.totals.count s =
    (ofItems level header items crawl).items.countP fun i => i.status = s := by
  simp only [ofItems, Totals.count_tally, List.countP_map]
  rfl

/-- The totals count every item once. -/
theorem total_eq_length : (ofItems level header items crawl).summary.totals.total =
    (ofItems level header items crawl).items.length := by
  simp only [ofItems, Totals.total_tally, List.length_map]

end Report

end ArchiveLabels
