import ArchiveLabels.Proofs.Selector.Written
import ArchiveLabels.Proofs.Text.Alphanumeric
import ArchiveLabels.Proofs.Text.Blank
import ArchiveLabels.Proofs.Text.Numerals
import Mathlib.Data.List.TakeWhile

/-!
# Names and tests as they are written

What tells the tokens of a selector apart is which characters can stand in a name : no blank is one
of them (`Selector.isTestChar_eq_false_of_isBlank`), nor is any of the marks that may stand behind a
name. So a name test (`Selector.nameTest_written`) and a test of the children
(`Selector.readTest_written`) are read as written, and whatever is read as one can be written
(`Selector.exists_written_nameTest`, `Selector.exists_written_readTest`).
-/

namespace ArchiveLabels.Selector

open Text

variable {bindings : Bindings} {axis : Axis} {c q : Char} {cs ds run rest : List Char}

/-! ## Characters -/

theorem isTestChar_of_isNameChar (h : isNameChar c = true) : isTestChar c = true := by
  rw [isTestChar, Bool.or_eq_true]
  exact .inl h

theorem isNameChar_of_isTestChar (h : isTestChar c = true) (hcolon : c ≠ ':') :
    isNameChar c = true := by
  rw [isTestChar, Bool.or_eq_true, beq_iff_eq] at h
  exact h.resolve_right hcolon

/-- A name holds no colon, so that a prefix ends at the first one. -/
theorem ne_colon_of_isNameChar (h : isNameChar c = true) : c ≠ ':' := by
  rintro rfl
  revert h
  decide

/-- A blank is no character of a name test, so that it ends the name of a child, too. -/
theorem isTestChar_eq_false_of_isBlank (h : isBlank c = true) : isTestChar c = false := by
  have hne (d : Char) (hd : isBlank d = false) : (c == d) = false := by
    rw [beq_eq_false_iff_ne]
    rintro rfl
    rw [h] at hd
    cases hd
  simp only [isTestChar, isChildChar, isAlphanumeric_eq_false_of_isBlank h, hne '_' rfl, hne '-' rfl,
    hne '*' rfl, hne ':' rfl, Bool.or_false]

theorem isBlank_eq_false_of_isTestChar (h : isTestChar c = true) : isBlank c = false := by
  rw [Bool.eq_false_iff]
  intro hblank
  rw [isTestChar_eq_false_of_isBlank hblank] at h
  cases h

theorem isTestChar_of_isChildChar (h : isChildChar c = true) : isTestChar c = true := by
  simp only [isTestChar, h, Bool.true_or]

/-! ## Runs -/

theorem trimStart_blanks (b : Blanks) (rest : List Char) :
    trimStart (b.chars ++ rest) = trimStart rest :=
  List.dropWhile_append_of_pos b.blank

/-- Blanks, and whatever stands behind them, start with a blank or with what stands behind them. -/
theorem head?_blanks {p : Char → Prop} (b : Blanks) (hblank : ∀ c, isBlank c = true → p c)
    (hrest : ∀ c ∈ rest.head?, p c) : ∀ c ∈ (b.chars ++ rest).head?, p c := by
  obtain ⟨chars, h⟩ := b
  cases chars with
  | nil => exact hrest
  | cons d ds =>
    rintro c ⟨⟩
    exact hblank d (h d List.mem_cons_self)

/-- The run up to the first quote is cut off with it. -/
theorem cutAt?_append (h : q ∉ run) (rest : List Char) :
    cutAt? q (run ++ q :: rest) = some (run, rest) := by
  induction run with
  | nil => rw [List.nil_append, cutAt?, if_pos rfl]
  | cons c run ih =>
    rw [List.mem_cons, not_or] at h
    rw [List.cons_append, cutAt?, if_neg (Ne.symm h.1), ih h.2]
    rfl

theorem cutAt?_eq_none_iff : cutAt? q cs = none ↔ q ∉ cs := by
  induction cs with
  | nil => simp [cutAt?]
  | cons c cs ih =>
    rw [cutAt?, List.mem_cons, not_or]
    split
    case isTrue hc => simp [hc]
    case isFalse hc => simp [ih, Ne.symm hc]

/-- A cut is at the first occurrence. -/
theorem cutAt?_eq_some (h : cutAt? q cs = some (run, rest)) : q ∉ run ∧ cs = run ++ q :: rest := by
  induction cs generalizing run with
  | nil => cases h
  | cons c cs ih =>
    rw [cutAt?] at h
    split at h
    case isTrue hc =>
      cases h
      exact ⟨List.not_mem_nil, by rw [hc, List.nil_append]⟩
    case isFalse hc =>
      obtain ⟨⟨run', rest'⟩, hcut, heq⟩ := Option.map_eq_some_iff.1 h
      cases heq
      obtain ⟨hrun, hcs⟩ := ih hcut
      exact ⟨by simp [Ne.symm hc, hrun], by rw [hcs, List.cons_append]⟩

/-! ## Names and tests -/

/-- A written name reads back as its test, its prefix bound. -/
theorem nameTest_written (w : WrittenName bindings) (rest : List Char) :
    nameTest bindings w.chars rest = .ok w.test := by
  obtain ⟨qualifier, name, hne, hname⟩ := w
  have hcolon : ':' ∉ name := fun h => ne_colon_of_isNameChar (hname _ h) rfl
  cases qualifier with
  | none =>
    rw [nameTest, WrittenName.chars, cutAt?_eq_none_iff.2 hcolon]
    rfl
  | some qualifier =>
    have hqualifier : ':' ∉ qualifier.chars :=
      fun h => ne_colon_of_isNameChar (qualifier.plain _ h) rfl
    rw [nameTest, WrittenName.chars, cutAt?_append hqualifier]
    simp [hne, hcolon, qualifier.bound, WrittenName.test]

/-- A written name is all characters of a test, so that it is taken whole. -/
theorem WrittenName.isTestChar (w : WrittenName bindings) : ∀ c ∈ w.chars, isTestChar c = true := by
  intro c hc
  obtain ⟨qualifier, name, hne, hname⟩ := w
  cases qualifier with
  | none => exact isTestChar_of_isNameChar (hname c hc)
  | some qualifier =>
    rw [WrittenName.chars, List.mem_append, List.mem_cons] at hc
    rcases hc with hc | rfl | hc
    · exact isTestChar_of_isNameChar (qualifier.plain c hc)
    · rfl
    · exact isTestChar_of_isNameChar (hname c hc)

theorem WrittenName.chars_ne_nil (w : WrittenName bindings) : w.chars ≠ [] := by
  obtain ⟨qualifier, name, hne, hname⟩ := w
  cases qualifier with
  | none => exact hne
  | some qualifier => simp [WrittenName.chars]

theorem isChildChar_eq_false_of_isBlank (h : isBlank c = true) : isChildChar c = false := by
  rw [Bool.eq_false_iff]
  intro hchild
  rw [isBlank_eq_false_of_isTestChar (isTestChar_of_isChildChar hchild)] at h
  cases h

/-- A run of test characters has no blank in front. -/
theorem trimStart_run (hne : run ≠ []) (hrun : ∀ c ∈ run, isTestChar c = true) (rest : List Char) :
    trimStart (run ++ rest) = run ++ rest := by
  cases run with
  | nil => exact absurd rfl hne
  | cons c run => exact trimStart_cons (isBlank_eq_false_of_isTestChar (hrun c List.mem_cons_self))

/-- The inside of a child test reads back, in either quote. -/
theorem readTest_written (w : WrittenTest) (rest : List Char) :
    readTest (w.innerChars ++ rest) = .ok (w.test, rest) := by
  let behindValue := w.beforeClose.chars ++ ']' :: rest
  let behindEquals := w.beforeValue.chars ++ w.quote.char :: (w.value ++ w.quote.char :: behindValue)
  let behindChild := w.beforeEquals.chars ++ '=' :: behindEquals
  have hchars : w.innerChars ++ rest = w.beforeChild.chars ++ (w.child ++ behindChild) := by
    simp [WrittenTest.innerChars, behindChild, behindEquals, behindValue]
  have hchild : trimStart (w.beforeChild.chars ++ (w.child ++ behindChild)) =
      w.child ++ behindChild := by
    rw [trimStart_blanks, trimStart_run w.ne_nil fun c hc => isTestChar_of_isChildChar (w.plain c hc)]
  have hend : ∀ c ∈ behindChild.head?, isChildChar c = false :=
    head?_blanks _ (fun _ => isChildChar_eq_false_of_isBlank) fun c hc => by
      cases hc
      rfl
  have hequals : trimStart behindChild = '=' :: behindEquals := by
    rw [trimStart_blanks, trimStart_cons rfl]
  have hquote : trimStart behindEquals = w.quote.char :: (w.value ++ w.quote.char :: behindValue) := by
    rw [trimStart_blanks, trimStart_cons (by cases w.quote <;> rfl)]
  have hquoted : (w.quote.char = '"' || w.quote.char = '\'') = true := by
    cases w.quote <;> rfl
  have hclose : trimStart behindValue = ']' :: rest := by
    rw [trimStart_blanks, trimStart_cons rfl]
  rw [readTest, hchars, hchild, takeWhile_append w.plain hend, dropWhile_append w.plain hend]
  simp [hequals, hquote, hquoted, cutAt?_append w.noQuote, hclose, w.ne_nil, WrittenTest.test]

/-- No blanks. -/
def Blanks.none : Blanks :=
  ⟨[], nofun⟩

/-- Every name test that is read can be written. -/
theorem exists_written_nameTest {token : List Char} {name : NameTest}
    (htoken : ∀ c ∈ token, isTestChar c = true) (hne : token ≠ [])
    (h : nameTest bindings token rest = .ok name) : ∃ w : WrittenName bindings, w.test = name := by
  unfold nameTest at h
  split at h
  case h_1 hcut =>
    cases h
    have hcolon := cutAt?_eq_none_iff.1 hcut
    have hplain : ∀ c ∈ token, isNameChar c = true := fun c hc =>
      isNameChar_of_isTestChar (htoken c hc) (ne_of_mem_of_not_mem hc hcolon)
    exact ⟨⟨none, token, hne, hplain⟩, rfl⟩
  case h_2 qualifier name' hcut =>
    obtain ⟨hcolon, rfl⟩ := cutAt?_eq_some hcut
    have hqualifier : ∀ c ∈ qualifier, isNameChar c = true := fun c hc =>
      isNameChar_of_isTestChar (htoken c (List.mem_append_left _ hc)) (ne_of_mem_of_not_mem hc hcolon)
    split at h
    case isTrue => cases h
    case isFalse hname =>
      simp only [Bool.or_eq_true, List.isEmpty_iff, List.contains_iff_mem, not_or] at hname
      have hplain : ∀ c ∈ name', isNameChar c = true := fun c hc =>
        isNameChar_of_isTestChar (htoken c (by simp [hc])) (ne_of_mem_of_not_mem hc hname.2)
      split at h
      case h_1 space hbound =>
        cases h
        exact ⟨⟨some ⟨qualifier, space, hqualifier, hbound⟩, name', hname.1, hplain⟩, rfl⟩
      case h_2 => cases h

theorem exists_quote (h : (q = '"' || q = '\'') = true) : ∃ k : Quote, k.char = q := by
  simp only [Bool.or_eq_true, decide_eq_true_eq] at h
  rcases h with rfl | rfl
  · exact ⟨.double, rfl⟩
  · exact ⟨.single, rfl⟩

/-- Every child test that is read can be written. -/
theorem exists_written_readTest {t : ChildTest} (h : readTest cs = .ok (t, rest)) :
    ∃ w : WrittenTest, w.test = t := by
  have hplain : ∀ c ∈ (trimStart cs).takeWhile isChildChar, isChildChar c = true :=
    fun c hc => List.mem_takeWhile_imp hc
  unfold readTest at h
  simp only [List.isEmpty_iff] at h
  split at h
  · cases h
  · rename_i hne
    split at h
    · split at h
      · cases h
      · split at h
        · rename_i hquote
          obtain ⟨quote, rfl⟩ := exists_quote hquote
          split at h
          · cases h
          · rename_i value behindValue hcut
            split at h
            · cases h
              exact ⟨⟨.none, .none, _, .none, .none, quote, value, .none, hne, hplain,
                (cutAt?_eq_some hcut).1⟩, rfl⟩
            · cases h
        · cases h
    · cases h

end ArchiveLabels.Selector
