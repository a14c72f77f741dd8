import ArchiveLabels.Text.Alphanumeric
import ArchiveLabels.Text.Blank

/-!
# Blanks are neither letters nor digits

From 0x80 on the letters and digits are those of a table, which is searched by halving. What is
found there lies in one of its ranges (`Text.exists_of_searchRanges`), and no range meets the blanks
(`Text.wideAlphanumerics_apart`).
-/

namespace ArchiveLabels.Text

variable {c : Char}

/-- Where the search comes upon a number, a range holds it. -/
theorem exists_of_searchRanges {ranges : Array (Nat × Nat)} {n low high : Nat}
    (hhigh : high ≤ ranges.size) (h : searchRanges ranges n low high = true) :
    ∃ r ∈ ranges, r.1 ≤ n ∧ n ≤ r.2 := by
  fun_induction searchRanges ranges n low high with
  | case1 low high hlt middle first last hget hn ih => exact ih (by omega) h
  | case2 low high hlt middle first last hget hfirst hn ih => exact ih hhigh h
  | case3 low high hlt middle first last hget hfirst hlast =>
    have hmiddle : middle < ranges.size := by
      omega
    refine ⟨ranges[middle], Array.getElem_mem hmiddle, ?_⟩
    rw [Array.getD_eq_getD_getElem?, Array.getElem?_eq_getElem hmiddle, Option.getD_some] at hget
    rw [hget]
    omega
  | case4 => cases h

/-- The numbers of the blanks from 0x80 on. -/
def wideBlanks : List (Nat × Nat) :=
  [(0x85, 0x85), (0xA0, 0xA0), (0x1680, 0x1680), (0x2000, 0x200A), (0x2028, 0x2029),
   (0x202F, 0x202F), (0x205F, 0x205F), (0x3000, 0x3000)]

/-- A wide blank lies in one of the ranges of them. -/
theorem exists_mem_wideBlanks (hwide : 0x80 ≤ c.toNat) (h : isBlank c = true) :
    ∃ b ∈ wideBlanks, b.1 ≤ c.toNat ∧ c.toNat ≤ b.2 := by
  simp only [isBlank, Bool.or_eq_true, Bool.and_eq_true, decide_eq_true_eq, beq_iff_eq] at h
  simp only [wideBlanks, List.mem_cons, List.not_mem_nil, or_false, exists_eq_or_imp,
    exists_eq_left]
  omega

/-- No range of letters meets a range of blanks. -/
theorem wideAlphanumerics_apart :
    ∀ r ∈ wideAlphanumerics, ∀ b ∈ wideBlanks, r.2 < b.1 ∨ b.2 < r.1 := by
  have h : ∀ r ∈ wideAlphanumerics.toList, ∀ b ∈ wideBlanks, r.2 < b.1 ∨ b.2 < r.1 := by
    decide +kernel
  exact fun r hr => h r hr.val

theorem isAlphanumeric_eq_false_of_isBlank (h : isBlank c = true) : isAlphanumeric c = false := by
  by_cases hwide : c.toNat < 0x80
  · have hcode : c.toNat = 9 ∨ c.toNat = 10 ∨ c.toNat = 11 ∨ c.toNat = 12 ∨ c.toNat = 13 ∨
        c.toNat = 32 := by
      simp only [isBlank, Bool.or_eq_true, Bool.and_eq_true, decide_eq_true_eq, beq_iff_eq] at h
      omega
    rw [← Char.ofNat_toNat c]
    rcases hcode with hcode | hcode | hcode | hcode | hcode | hcode <;>
    · rw [hcode]
      rfl
  · rw [isAlphanumeric, if_neg hwide, Bool.eq_false_iff]
    intro hfound
    obtain ⟨r, hr, hfirst, hlast⟩ := exists_of_searchRanges (Nat.le_refl _) hfound
    obtain ⟨b, hb, hbfirst, hblast⟩ := exists_mem_wideBlanks (Nat.le_of_not_lt hwide) h
    have hapart := wideAlphanumerics_apart r hr b hb
    omega

end ArchiveLabels.Text
