import ArchiveLabels.Text.Digits
import Mathlib.Algebra.Group.Nat.Defs

/-!
# Decimal numerals

The digits of a number denote it (`Text.numberOf_toDigits`), and zeros in front make no difference
(`Text.numberOf_padded`). Digits are read as a run : as far as they go, and no further
(`Text.takeWhile_append`, `Text.dropWhile_append`).
-/

namespace ArchiveLabels.Text

variable {c : Char} {ds run rest : List Char}

/-! ## Runs -/

theorem takeWhile_append {p : Char → Bool} (hrun : ∀ c ∈ run, p c = true)
    (hrest : ∀ c ∈ rest.head?, p c = false) : (run ++ rest).takeWhile p = run := by
  rw [List.takeWhile_append_of_pos hrun]
  cases rest with
  | nil => simp
  | cons c cs => simp [hrest c rfl]

theorem dropWhile_append {p : Char → Bool} (hrun : ∀ c ∈ run, p c = true)
    (hrest : ∀ c ∈ rest.head?, p c = false) : (run ++ rest).dropWhile p = rest := by
  rw [List.dropWhile_append_of_pos hrun]
  cases rest with
  | nil => rfl
  | cons c cs => simp [hrest c rfl]

/-! ## Digits -/

theorem digitValue_of_isDigit (h : c.isDigit = true) : digitValue c = c.toNat - '0'.toNat := by
  rw [digitValue, digitValue?, if_pos h, Option.getD_some]

theorem numberOf_eq_ofDigitChars (h : ∀ c ∈ ds, c.isDigit = true) :
    numberOf 10 ds = Nat.ofDigitChars 10 ds 0 := by
  rw [numberOf, Nat.ofDigitChars_eq_foldl]
  generalize 0 = n
  induction ds generalizing n with
  | nil => rfl
  | cons c ds ih =>
    rw [List.foldl_cons, List.foldl_cons, digitValue_of_isDigit (h c List.mem_cons_self),
      Nat.mul_comm, ih fun d hd => h d (List.mem_cons_of_mem c hd)]

theorem isDigit_of_mem_toDigits {n : Nat} (h : c ∈ Nat.toDigits 10 n) : c.isDigit = true :=
  Nat.isDigit_of_mem_toDigits (by decide) (by decide) h

/-- The digits of a number denote it. -/
theorem numberOf_toDigits (n : Nat) : numberOf 10 (Nat.toDigits 10 n) = n := by
  rw [numberOf_eq_ofDigitChars fun _ => isDigit_of_mem_toDigits, Nat.ofDigitChars_ten_toDigits]

/-- The digits of a number other than zero do not start with a zero. -/
theorem head?_toDigits_ne {n : Nat} (h : 0 < n) : (Nat.toDigits 10 n).head? ≠ some '0' := by
  induction n using Nat.strongRecOn with
  | ind n ih =>
    rw [Nat.toDigits_eq_if (by decide)]
    split
    · simpa using Nat.ne_of_gt h
    · rw [List.head?_append, Option.or_of_isSome (by simp)]
      exact ih (n / 10) (by omega) (by omega)

/-- A zero in front is all there is. -/
theorem eq_nil_of_toDigits {n : Nat} (h : Nat.toDigits 10 n = '0' :: ds) : ds = [] := by
  rcases Nat.eq_zero_or_pos n with rfl | hn
  · rw [Nat.toDigits_zero] at h
    exact (List.cons.inj h).2.symm
  · exact absurd (by rw [h]; rfl) (head?_toDigits_ne hn)

/-! ## Numerals of a fixed width -/

/-- The digits of a number, behind zeros that make up the width. -/
def padded (width n : Nat) : List Char :=
  List.replicate (width - (Nat.toDigits 10 n).length) '0' ++ Nat.toDigits 10 n

theorem isDigit_of_mem_padded {width n : Nat} (h : c ∈ padded width n) : c.isDigit = true := by
  rcases List.mem_append.mp h with h | h
  · rw [List.eq_of_mem_replicate h]
    rfl
  · exact isDigit_of_mem_toDigits h

theorem numberOf_padded (width n : Nat) : numberOf 10 (padded width n) = n := by
  rw [numberOf_eq_ofDigitChars fun _ => isDigit_of_mem_padded, padded, Nat.ofDigitChars_append,
    Nat.ofDigitChars_replicate_zero, Nat.mul_zero, Nat.ofDigitChars_ten_toDigits]

theorem padded_ne_nil (width n : Nat) : padded width n ≠ [] := by
  simp [padded]

/-- A number of no more digits is written at its full width. -/
theorem length_padded {width n : Nat} (hw : 0 < width) (h : n < 10 ^ width) :
    (padded width n).length = width := by
  have := (Nat.length_toDigits_le_iff (by decide) hw).mpr h
  rw [padded, List.length_append, List.length_replicate]
  omega

end ArchiveLabels.Text
