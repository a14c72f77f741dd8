import ArchiveLabels.Text.Blank
import Mathlib.Data.List.Chain
import Mathlib.Data.List.DropRight

/-!
# Trimmed and tidy texts

A text that was trimmed is trimmed (`Text.trim_trim`), and one whose words were joined by single
spaces is tidy, if it has words at all (`Text.isTidy_singleSpaced`).
-/

namespace ArchiveLabels.Text

variable {c : Char} {cs blanks : List Char}

/-! ## Trimming -/

theorem trimStart_cons (h : isBlank c = false) : trimStart (c :: cs) = c :: cs :=
  List.dropWhile_cons_of_neg (by rw [h]; exact Bool.false_ne_true)

theorem trimStart_trimStart (cs : List Char) : trimStart (trimStart cs) = trimStart cs :=
  List.dropWhile_idempotent _ cs

/-- Nothing is trimmed where no blank stands in front. -/
theorem trimStart_of_head (h : ∀ c ∈ cs.head?, isBlank c = false) : trimStart cs = cs := by
  cases cs with
  | nil => rfl
  | cons c cs => exact trimStart_cons (h c rfl)

/-- No blank stands in front of a trimmed text. -/
theorem head_trimStart : ∀ c ∈ (trimStart cs).head?, isBlank c = false := by
  intro c hc
  have h := List.head?_dropWhile_not isBlank cs
  rw [trimStart] at hc
  rw [Option.mem_def.mp hc] at h
  simpa using h

theorem trimEnd_trimEnd (cs : List Char) : trimEnd (trimEnd cs) = trimEnd cs := by
  simp only [trimEnd, List.reverse_reverse]
  rw [List.dropWhile_idempotent]

/-- Trimming the end cuts off an end. -/
theorem trimEnd_prefix (cs : List Char) : trimEnd cs <+: cs := by
  rw [trimEnd, ← List.reverse_suffix, List.reverse_reverse]
  exact List.dropWhile_suffix isBlank

/-- Blanks behind a text do not tell where it starts. -/
theorem head_trimEnd (h : ∀ c ∈ cs.head?, isBlank c = false) :
    ∀ c ∈ (trimEnd cs).head?, isBlank c = false := by
  intro c hc
  obtain ⟨rest, hrest⟩ := trimEnd_prefix cs
  refine h c ?_
  rw [← hrest, List.head?_append, hc]
  rfl

/-- A text that was trimmed is trimmed. -/
theorem trim_trim (s : String) : trim (trim s) = trim s := by
  have hstart : trimStart (trimChars s.toList) = trimChars s.toList :=
    trimStart_of_head (head_trimEnd head_trimStart)
  have hchars : trimChars (trimChars s.toList) = trimChars s.toList := by
    rw [trimChars, hstart, trimChars, trimEnd_trimEnd]
  rw [trim, trim, String.toList_ofList, hchars]

/-- A text that starts and ends with no blank is trimmed. -/
theorem trimChars_of_ends (hfirst : ∀ c ∈ cs.head?, isBlank c = false)
    (hlast : ∀ c ∈ cs.getLast?, isBlank c = false) : trimChars cs = cs := by
  have hend : trimStart cs.reverse = cs.reverse :=
    trimStart_of_head (by rwa [List.head?_reverse])
  rw [trimChars, trimStart_of_head hfirst, trimEnd, ← trimStart, hend, List.reverse_reverse]

theorem head_of_trimmed (h : trimChars cs = cs) : ∀ c ∈ cs.head?, isBlank c = false := by
  rw [← h]
  exact head_trimEnd head_trimStart

theorem last_of_trimmed (h : trimChars cs = cs) : ∀ c ∈ cs.getLast?, isBlank c = false := by
  rw [← h, trimChars, trimEnd, List.getLast?_reverse]
  exact head_trimStart

/-- Blanks behind a text are trimmed away. -/
theorem trimChars_append (hne : cs ≠ []) (h : trimChars cs = cs)
    (hblanks : ∀ c ∈ blanks, isBlank c = true) : trimChars (cs ++ blanks) = cs := by
  have hfirst : ∀ c ∈ (cs ++ blanks).head?, isBlank c = false := by
    rw [List.head?_append_of_ne_nil _ hne]
    exact head_of_trimmed h
  have hend : trimStart (blanks.reverse ++ cs.reverse) = trimStart cs.reverse :=
    List.dropWhile_append_of_pos fun c hc => hblanks c (List.mem_reverse.mp hc)
  have hlast : trimStart cs.reverse = cs.reverse :=
    trimStart_of_head (by rw [List.head?_reverse]; exact last_of_trimmed h)
  rw [trimChars, trimStart_of_head hfirst, trimEnd, ← trimStart, List.reverse_append, hend, hlast,
    List.reverse_reverse]

/-! ## Words -/

/-- A run of characters that are not blank. -/
structure IsWord (w : List Char) : Prop where
  ne_nil : w ≠ []
  not_blank : ∀ c ∈ w, isBlank c = false

theorem isWord_of_mem_wordsFrom {word : List Char} (hword : ∀ c ∈ word, isBlank c = false)
    {w : List Char} (hw : w ∈ wordsFrom word cs) : IsWord w := by
  have hrun (hne : word.isEmpty = false) : IsWord word.reverse :=
    ⟨by simpa using hne, fun c hc => hword c (List.mem_reverse.mp hc)⟩
  induction cs generalizing word with
  | nil =>
    rw [wordsFrom] at hw
    cases hne : word.isEmpty
    · rw [hne] at hw
      rw [List.mem_singleton.mp hw]
      exact hrun hne
    · rw [hne] at hw
      cases hw
  | cons c cs ih =>
    have hnil : ∀ c ∈ ([] : List Char), isBlank c = false := List.forall_mem_nil _
    rw [wordsFrom] at hw
    cases hc : isBlank c
    · rw [hc, if_neg Bool.false_ne_true] at hw
      have hcons : ∀ d ∈ c :: word, isBlank d = false := by
        rintro d (_ | ⟨_, hd⟩)
        · exact hc
        · exact hword d hd
      refine ih hcons hw fun _ => ⟨by simp, fun d hd => hcons d (List.mem_reverse.mp hd)⟩
    · rw [hc, if_pos rfl] at hw
      cases hne : word.isEmpty
      · rw [hne, if_neg Bool.false_ne_true] at hw
        rcases List.mem_cons.mp hw with rfl | hw
        · exact hrun hne
        · exact ih hnil hw fun h => nomatch h
      · rw [hne, if_pos rfl] at hw
        exact ih hnil hw fun h => nomatch h

/-- The words of a text are words. -/
theorem isWord_of_mem_words {s : String} {w : List Char} (h : w ∈ wordsFrom [] s.toList) :
    IsWord w :=
  isWord_of_mem_wordsFrom (List.forall_mem_nil _) h

/-! ## Tidy texts -/

/-- Words with a single space between neighbours and nothing around them. -/
structure IsTidy (cs : List Char) : Prop where
  ne_nil : cs ≠ []
  first : ∀ c ∈ cs.head?, isBlank c = false
  last : ∀ c ∈ cs.getLast?, isBlank c = false
  spaces : ∀ c ∈ cs, isBlank c = true → c = ' '
  single : cs.IsChain fun a b => isBlank a = true → isBlank b = false

theorem IsWord.isTidy {w : List Char} (h : IsWord w) : IsTidy w where
  ne_nil := h.ne_nil
  first c hc := h.not_blank c (List.mem_of_mem_head? hc)
  last c hc := h.not_blank c (List.mem_of_mem_getLast? hc)
  spaces c hc hblank := by
    rw [h.not_blank c hc] at hblank
    cases hblank
  single := by
    refine (List.pairwise_of_forall_mem_list ?_).isChain
    exact fun _ _ d hd _ => h.not_blank d hd

/-- A word goes in front, with a space behind it. -/
theorem IsTidy.cons {w : List Char} (h : IsTidy cs) (hw : IsWord w) :
    IsTidy (w ++ [' '] ++ cs) where
  ne_nil := by simp
  first c hc := by
    rw [List.append_assoc, List.head?_append_of_ne_nil _ hw.ne_nil] at hc
    exact hw.isTidy.first c hc
  last c hc := by
    rw [List.getLast?_append_of_ne_nil _ h.ne_nil] at hc
    exact h.last c hc
  spaces c hc hblank := by
    rcases List.mem_append.mp hc with hc | hc
    · rcases List.mem_append.mp hc with hc | hc
      · exact hw.isTidy.spaces c hc hblank
      · exact List.mem_singleton.mp hc
    · exact h.spaces c hc hblank
  single := by
    refine List.IsChain.append ?_ h.single fun _ _ d hd _ => h.first d hd
    refine hw.isTidy.single.append (.singleton ' ') fun c hc _ _ hblank => ?_
    rw [hw.isTidy.last c hc] at hblank
    cases hblank

/-- Words joined by spaces are tidy. -/
theorem isTidy_intercalate {ws : List (List Char)} (hne : ws ≠ []) (hws : ∀ w ∈ ws, IsWord w) :
    IsTidy ([' '].intercalate ws) := by
  induction ws with
  | nil => exact absurd rfl hne
  | cons w ws ih =>
    have hw := hws w List.mem_cons_self
    cases ws with
    | nil =>
      rw [List.intercalate_singleton]
      exact hw.isTidy
    | cons v ws =>
      rw [List.intercalate_cons_cons]
      exact (ih (List.cons_ne_nil v ws) fun u hu => hws u (List.mem_cons_of_mem w hu)).cons hw

/-- A text whose words are joined by single spaces is tidy, if it has words at all. -/
theorem isTidy_singleSpaced {s : String} (h : singleSpaced s ≠ "") :
    IsTidy (singleSpaced s).toList := by
  have hchars : (singleSpaced s).toList = [' '].intercalate (wordsFrom [] s.toList) := by
    simp [singleSpaced, words, Function.comp_def]
  rw [hchars]
  refine isTidy_intercalate (fun hnil => h ?_) fun w hw => isWord_of_mem_words hw
  rw [singleSpaced, words, hnil]
  rfl

end ArchiveLabels.Text
