import ArchiveLabels.Proofs.Text.Blank
import ArchiveLabels.Proofs.Text.Numerals
import ArchiveLabels.Proofs.Time.Calendar
import ArchiveLabels.Time.Reader

/-!
# Points in time are read as written

A point in time that is written in a file is read back from there to the nanosecond
(`Timestamp.parse?_written`), if it lies in a year that dates may have and in no leap second
(`Timestamp.IsRepresentable`). Each number is written at its full width or with a sign behind it, so
that its reader stops where it ends (`Timestamp.number?_append`).
-/

namespace ArchiveLabels.Timestamp

open Text

variable {c : Char} {ds rest : List Char} {most width n : Nat} {t : Timestamp}

/-- A point in time that dates can have. -/
structure IsRepresentable (t : Timestamp) : Prop where
  nanos_lt : t.nanos < nanosPerSecond
  inRange : t.inRange = true

/-! ## Numbers -/

theorem toList_digits (width n : Nat) : (digits width n).toList = padded width n := by
  simp only [digits, String.toList_append, String.toList_ofList, padded, ← Nat.toList_repr,
    String.length_toList]
  rfl

theorem isBlank_eq_false_of_isDigit (h : c.isDigit = true) : isBlank c = false := by
  simp only [Char.isDigit, Bool.and_eq_true, decide_eq_true_eq, UInt32.le_iff_toNat_le] at h
  obtain ⟨hlow, hhigh⟩ := h
  change 48 ≤ c.toNat at hlow
  change c.toNat ≤ 57 at hhigh
  simp only [isBlank, Bool.or_eq_false_iff, Bool.and_eq_false_iff, decide_eq_false_iff_not,
    beq_eq_false_iff_ne]
  omega

theorem trimStart_padded (width n : Nat) (rest : List Char) :
    trimStart (padded width n ++ rest) = padded width n ++ rest := by
  obtain ⟨c, cs, hcs⟩ := List.exists_cons_of_ne_nil (padded_ne_nil width n)
  have hc : c.isDigit = true := isDigit_of_mem_padded (by rw [hcs]; exact List.mem_cons_self)
  rw [hcs, List.cons_append, trimStart_cons (isBlank_eq_false_of_isDigit hc)]

/-- Digits are read up to the last that may be, or to where no digit follows. -/
theorem takeWhile_take (hds : ∀ c ∈ ds, c.isDigit = true)
    (hend : ds.length = most ∨ ds.length ≤ most ∧ ∀ c ∈ rest.head?, c.isDigit = false) :
    ((ds ++ rest).take most).takeWhile Char.isDigit = ds := by
  rw [List.take_append, List.take_of_length_le (by omega)]
  refine takeWhile_append hds fun c hc => ?_
  rcases hend with rfl | ⟨-, hrest⟩
  · simp at hc
  · refine hrest c ?_
    cases rest with
    | nil => simp at hc
    | cons d rest =>
      cases hm : most - ds.length with
      | zero => simp [hm] at hc
      | succ k => simpa [hm] using hc

/-- A run of digits reads back as its number, where it ends or has all its digits. -/
theorem number?_append (hds : ∀ c ∈ ds, c.isDigit = true) (hne : ds ≠ [])
    (hend : ds.length = most ∨ ds.length ≤ most ∧ ∀ c ∈ rest.head?, c.isDigit = false) :
    number? most (ds ++ rest) = some (numberOf 10 ds, rest) := by
  rw [number?, takeWhile_take hds hend, if_neg (by simpa using hne), List.drop_left]

theorem shortNumber?_padded (h : n < 100) (rest : List Char) :
    shortNumber? (padded 2 n ++ rest) = some (n, rest) := by
  rw [shortNumber?, trimStart_padded, number?_append (fun _ => isDigit_of_mem_padded)
    (padded_ne_nil 2 n) (.inl (length_padded (by decide) h)), numberOf_padded]

theorem longNumber?_padded (hrest : ∀ c ∈ rest.head?, c.isDigit = false) :
    longNumber? (padded width n ++ rest) = some (n, rest) := by
  rw [longNumber?, number?_append (fun _ => isDigit_of_mem_padded) (padded_ne_nil width n)
    (.inr ⟨by simp, hrest⟩), numberOf_padded]

theorem sign?_cons (h : isBlank c = false) : sign? c (c :: rest) = some ((), rest) := by
  rw [sign?, trimStart_cons h]
  simp

/-! ## Dates -/

theorem toList_yearText (y : Int) :
    (yearText y).toList =
      if 0 ≤ y ∧ y ≤ 9999 then padded 4 y.toNat
      else (if y < 0 then '-' else '+') :: padded 4 y.natAbs := by
  simp only [yearText, Bool.and_eq_true, decide_eq_true_eq]
  split_ifs
  · exact toList_digits 4 _
  · rw [String.toList_append, toList_digits]
    rfl
  · rw [String.toList_append, toList_digits]
    rfl

/-- A year is read as written, in front of the sign behind it. -/
theorem year?_yearText (y : Int) (rest : List Char) :
    year? ((yearText y).toList ++ '-' :: rest) = some (y, '-' :: rest) := by
  have hend : ∀ c ∈ ('-' :: rest).head?, c.isDigit = false := by
    rintro _ ⟨⟩
    rfl
  rw [toList_yearText]
  split_ifs with hplain hneg
  · have hlen : (padded 4 y.toNat).length = 4 := length_padded (by decide) (by omega)
    have hread : number? 4 (padded 4 y.toNat ++ '-' :: rest) = some (y.toNat, '-' :: rest) := by
      rw [number?_append (fun _ => isDigit_of_mem_padded) (padded_ne_nil 4 _) (.inl hlen),
        numberOf_padded]
    obtain ⟨c, cs, hcs⟩ := List.exists_cons_of_ne_nil (padded_ne_nil 4 y.toNat)
    have hc : c.isDigit = true := isDigit_of_mem_padded (by rw [hcs]; exact List.mem_cons_self)
    rw [year?, trimStart_padded]
    rw [hcs, List.cons_append] at hread ⊢
    split
    · rename_i heq
      rw [(List.cons.inj heq).1] at hc
      cases hc
    · rename_i heq
      rw [(List.cons.inj heq).1] at hc
      cases hc
    · simp only [hread, Option.map_some, Int.toNat_of_nonneg hplain.1]
  · rw [List.cons_append, year?, trimStart_cons rfl]
    simp only [longNumber?_padded hend, Option.map_some, Option.some.injEq, Prod.mk.injEq, and_true]
    omega
  · rw [List.cons_append, year?, trimStart_cons rfl]
    simp only [longNumber?_padded hend, Option.map_some, Option.some.injEq, Prod.mk.injEq, and_true]
    omega

/-- A date as it is written. -/
def dateChars (d : Date) : List Char :=
  (yearText d.year).toList ++ '-' :: (padded 2 d.month ++ '-' :: padded 2 d.day)

theorem monthLength_le (y : Int) (m : Nat) : Date.monthLength y m ≤ 31 := by
  unfold Date.monthLength
  split
  · split <;> decide
  all_goals decide

/-- A valid date reads back, also of a year out of four digits. -/
theorem date?_dateChars {d : Date} (h : d.isValid = true) (rest : List Char) :
    date? (dateChars d ++ rest) = some (d, rest) := by
  have hvalid := h
  simp only [Date.isValid, Bool.and_eq_true, decide_eq_true_eq] at h
  obtain ⟨⟨⟨-, hmonth⟩, -⟩, hday⟩ := h
  have := monthLength_le d.year d.month
  simp only [dateChars, List.append_assoc, List.cons_append, date?, year?_yearText,
    sign?_cons (show isBlank '-' = false from rfl),
    shortNumber?_padded (show d.month < 100 by omega),
    shortNumber?_padded (show d.day < 100 by omega), Option.bind_eq_bind, Option.bind_some, hvalid,
    if_true]

/-! ## Times of day -/

theorem toList_fractionText (nanos : Nat) :
    (fractionText nanos).toList =
      if nanos = 0 then []
      else if nanos % 1000000 = 0 then '.' :: padded 3 (nanos / 1000000)
      else if nanos % 1000 = 0 then '.' :: padded 6 (nanos / 1000)
      else '.' :: padded 9 nanos := by
  unfold fractionText
  split_ifs
  · rfl
  all_goals
    rw [String.toList_append, toList_digits]
    rfl

/-- A fraction reads back in nanoseconds, whatever number of digits it is written in. -/
theorem fraction?_padded (hw : 0 < width) (hmost : width ≤ 9) (hn : n < 10 ^ width)
    (hrest : ∀ c ∈ rest.head?, c.isDigit = false) :
    fraction? ('.' :: (padded width n ++ rest)) = some (n * 10 ^ (9 - width), rest) := by
  have hlen := length_padded hw hn
  have hrun : ((padded width n ++ rest).take 9).takeWhile Char.isDigit = padded width n :=
    takeWhile_take (fun _ => isDigit_of_mem_padded) (.inr ⟨by omega, hrest⟩)
  have hskip : rest.dropWhile Char.isDigit = rest := by
    simpa using dropWhile_append (List.forall_mem_nil _) hrest
  simp only [fraction?, hrun, List.isEmpty_iff, padded_ne_nil, if_false, numberOf_padded, hlen,
    Nat.pow_eq]
  rw [List.drop_left' hlen, hskip]

/-- A fraction of a second is read as written, to the nanosecond. -/
theorem fraction?_fractionText {nanos : Nat} (h : nanos < nanosPerSecond) (rest : List Char) :
    fraction? ((fractionText nanos).toList ++ 'Z' :: rest) = some (nanos, 'Z' :: rest) := by
  have hend : ∀ c ∈ ('Z' :: rest).head?, c.isDigit = false := by
    rintro _ ⟨⟩
    rfl
  unfold nanosPerSecond at h
  rw [toList_fractionText]
  split_ifs with h0 h6 h3
  · rw [h0]
    rfl
  · rw [List.cons_append, fraction?_padded (by decide) (by decide) (by omega) hend]
    exact congrArg (fun n => some (n, _)) (by omega)
  · rw [List.cons_append, fraction?_padded (by decide) (by decide) (by omega) hend]
    exact congrArg (fun n => some (n, _)) (by omega)
  · rw [List.cons_append, fraction?_padded (by decide) (by decide) (by omega) hend]
    exact congrArg (fun n => some (n, _)) (by omega)

/-- A time of day as it is written, with its zone. -/
def timeChars (second nanos : Nat) : List Char :=
  padded 2 (second / 3600) ++ ':' :: (padded 2 (second / 60 % 60) ++ ':' ::
    (padded 2 (second % 60) ++ ((fractionText nanos).toList ++ ['Z'])))

/-- The time of the day reads back to the nanosecond. -/
theorem time?_timeChars {second nanos : Nat} (hs : second < secondsPerDay)
    (hn : nanos < nanosPerSecond) :
    time? (timeChars second nanos) = some ((second, nanos), ['Z']) := by
  unfold secondsPerDay at hs
  have hwhole : second / 3600 * 3600 + second / 60 % 60 * 60 + second % 60 = second := by omega
  have hvalid : (decide (second / 3600 < 24) && decide (second / 60 % 60 < 60) &&
      decide (second % 60 ≤ 60)) = true := by
    simp only [Bool.and_eq_true, decide_eq_true_eq]
    omega
  simp only [timeChars, time?, shortNumber?_padded (show second / 3600 < 100 by omega),
    shortNumber?_padded (show second / 60 % 60 < 100 by omega),
    shortNumber?_padded (show second % 60 < 100 by omega),
    sign?_cons (show isBlank ':' = false from rfl), fraction?_fractionText hn, Option.bind_eq_bind,
    Option.bind_some, hvalid, if_true, if_neg (show ¬second % 60 = 60 by omega), hwhole]

/-! ## Points in time -/

theorem secondOfDay_lt (t : Timestamp) : t.secondOfDay < secondsPerDay := by
  unfold secondOfDay secondsPerDay
  omega

/-- A moment is its day and the second of the day. -/
theorem seconds_eq (t : Timestamp) :
    t.date.number * secondsPerDay + t.secondOfDay = t.seconds := by
  rw [date, Date.number_ofNumber]
  unfold secondOfDay secondsPerDay
  omega

/-- A moment is written as its date and its time. -/
theorem toList_written (h : t.nanos < nanosPerSecond) :
    t.written.toList = dateChars t.date ++ 'T' :: timeChars t.secondOfDay t.nanos := by
  simp only [written, writtenBare, if_neg (Nat.not_le.mpr h), Nat.mod_eq_of_lt h, Nat.add_zero,
    String.toList_append, toList_digits, dateChars, timeChars, List.append_assoc, List.cons_append]
  rfl

/-- A point in time is read as written. -/
theorem parse?_written (h : t.IsRepresentable) : parse? t.written = some t := by
  have hrange := h.inRange
  have hyear := h.inRange
  simp only [Timestamp.inRange, Bool.and_eq_true, decide_eq_true_eq] at hyear
  have ht : (⟨t.date.number * secondsPerDay + t.secondOfDay - 0, t.nanos⟩ : Timestamp) = t := by
    rw [Int.sub_zero, seconds_eq]
  have hvalid : t.date.isValid = true := Date.isValid_ofNumber _
  have hzone : zone? (trimStart ['Z']) = some (0, []) := rfl
  have hend : (trimStart []).isEmpty = true := rfl
  simp only [parse?, toList_written h.nanos_lt, date?_dateChars hvalid, separator?,
    time?_timeChars t.secondOfDay_lt h.nanos_lt, hzone, Option.bind_eq_bind, Option.bind_some, ht,
    hend, hyear, hrange, decide_true, Bool.and_self, if_true]

end ArchiveLabels.Timestamp
