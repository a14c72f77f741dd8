import ArchiveLabels.Json.Reader
import ArchiveLabels.Json.Writer
import ArchiveLabels.Proofs.Text.Numerals
import Mathlib.Tactic.SplitIfs

/-!
# Strings and numbers of JSON texts

A string is read up to its last quote, with the escapes undone (`Json.readString_escaped`). A whole
number is read up to whatever cannot belong to a number (`Json.readNumber_toString`).
-/

namespace ArchiveLabels.Json

open Text

variable {c x : Char} {cs rest : List Char}

/-! ## Strings -/

/-- A character in front of what is read of a string. -/
def inFront (c : Char) (r : Option (List Char) × List Char) : Option (List Char) × List Char :=
  (r.1.map (c :: ·), r.2)

theorem readString_letter (h : unescaped? c = some x) (cs : List Char) :
    readString ('\\' :: c :: cs) = (readString cs).map (inFront x) := by
  have hu : c ≠ 'u' := by
    rintro rfl
    cases h
  rw [readString]
  · rw [h, Option.bind_eq_bind, Option.bind_some]
    cases readString cs <;> rfl
  · rintro _ _ _ _ _ rfl
    exact absurd rfl hu

theorem readString_number {a b d e : Char} {n : Nat} (h : hexValue4? a b d e = some n)
    (hn : n < 0xD800) (cs : List Char) :
    readString ('\\' :: 'u' :: a :: b :: d :: e :: cs) =
      (readString cs).map (inFront (Char.ofNat n)) := by
  have hhigh : isHighSurrogate n = false := by
    simp only [isHighSurrogate, Bool.and_eq_false_iff, decide_eq_false_iff_not]
    omega
  have hlow : isLowSurrogate n = false := by
    simp only [isLowSurrogate, Bool.and_eq_false_iff, decide_eq_false_iff_not]
    omega
  rw [readString]
  simp only [h, hhigh, hlow, Option.bind_eq_bind, Option.bind_some, Bool.false_eq_true, if_false]
  cases readString cs <;> rfl

theorem readString_plain (hquote : c ≠ '"') (hback : c ≠ '\\') (h : ¬c.toNat < 0x20)
    (cs : List Char) : readString (c :: cs) = (readString cs).map (inFront c) := by
  rw [readString]
  · rw [if_neg (by simp [h, hback])]
    cases readString cs <;> rfl
  · exact hquote
  · rintro _ _ _ _ _ rfl
    exact absurd rfl hback
  · rintro _ _ rfl
    exact absurd rfl hback

/-- A control character is escaped by its number in four digits. -/
theorem hexValue4?_control (h : c.toNat < 0x20) :
    hexValue4? '0' '0' (hexChar (c.toNat / 16)) (hexChar (c.toNat % 16)) = some c.toNat := by
  have hall : ∀ n < 0x20, hexValue4? '0' '0' (hexChar (n / 16)) (hexChar (n % 16)) = some n := by
    decide
  exact hall c.toNat h

/-- A character, escaped where it must be, reads back. -/
theorem readString_escapedChar (c : Char) (rest : List Char) :
    readString (escapedChar c ++ rest) = (readString rest).map (inFront c) := by
  have hof {n : Nat} (h : c.toNat = n) : c = Char.ofNat n := by rw [← h, Char.ofNat_toNat]
  unfold escapedChar
  split_ifs with hquote hback hlow h8 h9 hA hC hD
  · exact readString_letter (by rw [hquote]; rfl) rest
  · exact readString_letter (by rw [hback]; rfl) rest
  · exact readString_letter (by rw [hof h8]; rfl) rest
  · exact readString_letter (by rw [hof h9]; rfl) rest
  · exact readString_letter (by rw [hof hA]; rfl) rest
  · exact readString_letter (by rw [hof hC]; rfl) rest
  · exact readString_letter (by rw [hof hD]; rfl) rest
  · have hread := readString_number (hexValue4?_control hlow) (by omega) rest
    rwa [Char.ofNat_toNat] at hread
  · exact readString_plain hquote hback hlow rest

/-- A string is read as written, up to its last quote. -/
theorem readString_escaped (cs rest : List Char) :
    readString (escaped cs ++ '"' :: rest) = some (some cs, rest) := by
  induction cs with
  | nil => rfl
  | cons c cs ih =>
    rw [escaped, List.append_assoc, readString_escapedChar, ih]
    rfl

/-! ## Numbers -/

/-- What stands behind a value : nothing that would belong to a number. -/
def ValueEnd (rest : List Char) : Prop :=
  ∀ c ∈ rest.head?, c.isDigit = false ∧ c ≠ '.' ∧ c ≠ 'e' ∧ c ≠ 'E'

theorem readFraction_of_valueEnd (h : ValueEnd rest) : readFraction rest = some ([], rest) := by
  unfold readFraction
  split
  · exact absurd rfl (h '.' rfl).2.1
  · rfl

theorem readExponent_of_valueEnd (h : ValueEnd rest) : readExponent rest = some ([], rest) := by
  cases rest with
  | nil => rfl
  | cons c cs =>
    obtain ⟨-, -, he, hE⟩ := h c rfl
    simp [readExponent, he, hE]

/-- Digits are read up to the end of the value. -/
theorem readDigits_append (n : Nat) (h : ValueEnd rest) :
    readDigits (Nat.toDigits 10 n ++ rest) = (Nat.toDigits 10 n, rest) := by
  have hrun : ∀ c ∈ Nat.toDigits 10 n, c.isDigit = true := fun _ => isDigit_of_mem_toDigits
  have hrest : ∀ c ∈ rest.head?, c.isDigit = false := fun c hc => (h c hc).1
  rw [readDigits, takeWhile_append hrun hrest, dropWhile_append hrun hrest]

theorem exists_toDigits_eq_cons (n : Nat) :
    ∃ c cs, Nat.toDigits 10 n = c :: cs ∧ c.isDigit = true := by
  obtain ⟨c, cs, hcs⟩ := List.exists_cons_of_ne_nil (Nat.toDigits_ne_nil (n := n) (b := 10))
  exact ⟨c, cs, hcs, isDigit_of_mem_toDigits (n := n) (by rw [hcs]; exact List.mem_cons_self)⟩

/-- A natural number reads back. -/
theorem readNumber_natural (n : Nat) (h : ValueEnd rest) :
    readNumber (Nat.toDigits 10 n ++ rest) = some (.int n, rest) := by
  rw [readNumber]
  · simp only [readDigits_append n h, numberOf_toDigits, readFraction_of_valueEnd h,
      readExponent_of_valueEnd h, Option.bind_eq_bind, Option.bind_some]
    split
    · exact absurd ‹_› Nat.toDigits_ne_nil
    · rfl
    · rename_i hne hdigits
      exact absurd (eq_nil_of_toDigits hdigits) hne
    · rfl
  · intro cs hcs
    obtain ⟨c, ds, hds, hc⟩ := exists_toDigits_eq_cons n
    rw [hds, List.cons_append, List.cons.injEq] at hcs
    rw [hcs.1] at hc
    cases hc

/-- A negative one reads back with its sign. -/
theorem readNumber_negative {n : Nat} (hn : 0 < n) (h : ValueEnd rest) :
    readNumber ('-' :: (Nat.toDigits 10 n ++ rest)) = some (.int (-n), rest) := by
  have hne : n ≠ 0 := by omega
  rw [readNumber]
  simp only [readDigits_append n h, numberOf_toDigits, readFraction_of_valueEnd h,
    readExponent_of_valueEnd h, Option.bind_eq_bind, Option.bind_some]
  split
  · exact absurd ‹_› Nat.toDigits_ne_nil
  · simp [hne]
  · rename_i hne hdigits
    exact absurd (eq_nil_of_toDigits hdigits) hne
  · simp [hne]

theorem toList_toString_natCast (n : Nat) : (toString (n : Int)).toList = Nat.toDigits 10 n :=
  Nat.toList_repr

theorem toList_toString_negSucc (n : Nat) :
    (toString (Int.negSucc n)).toList = '-' :: Nat.toDigits 10 (n + 1) := by
  rw [Int.toString_eq_repr, Int.repr, String.toList_append, Nat.toList_repr]
  rfl

/-- A whole number starts with its sign or a digit. -/
theorem exists_toString_eq_cons (n : Int) :
    ∃ c cs, (toString n).toList = c :: cs ∧ (c = '-' ∨ c.isDigit = true) := by
  cases n with
  | ofNat n =>
    obtain ⟨c, cs, hcs, hc⟩ := exists_toDigits_eq_cons n
    exact ⟨c, cs, (toList_toString_natCast n).trans hcs, .inr hc⟩
  | negSucc n => exact ⟨'-', _, toList_toString_negSucc n, .inl rfl⟩

/-- A number starts with no other character. -/
theorem ne_of_startsNumber {d : Char} (h : c = '-' ∨ c.isDigit = true)
    (hd : (d == '-' || d.isDigit) = false) : c ≠ d := by
  rintro rfl
  simp_all

/-- Every integer reads back from its digits. -/
theorem readNumber_toString (n : Int) (h : ValueEnd rest) :
    readNumber ((toString n).toList ++ rest) = some (.int n, rest) := by
  cases n with
  | ofNat n =>
    rw [Int.ofNat_eq_natCast, toList_toString_natCast]
    exact readNumber_natural n h
  | negSucc n =>
    rw [toList_toString_negSucc]
    exact readNumber_negative n.succ_pos h

end ArchiveLabels.Json
