import ArchiveLabels.Selector.Pattern

/-!
# What a name pattern means

A star stands for any characters (`Selector.Fits`). Looking for each piece of a pattern at the first
place where it occurs is not what that says, and comes to the same all the same : the first place
leaves the most for the pieces behind it (`Selector.exists_dropThrough?_eq_some`), so that a name is
accepted just if it fits (`Selector.matchesName_iff`). A name that fits is the pattern with one text
in place of each star (`Selector.filled`, `Selector.matchesName_iff_exists_filled`).
-/

namespace ArchiveLabels.Selector

open Text

variable {c : Char} {p n cs part rest : List Char} {parts : List (List Char)}

/-- Name `n` is pattern `p` with some characters, or none, in place of each star. -/
inductive Fits : List Char → List Char → Prop
  | nil : Fits [] []
  | char {c : Char} {p n : List Char} (hc : c ≠ '*') (h : Fits p n) : Fits (c :: p) (c :: n)
  | star (run : List Char) {p n : List Char} (h : Fits p n) : Fits ('*' :: p) (run ++ n)

/-! ## Pieces of a pattern -/

/-- The pieces stand in the characters one after the other, the last of them at the end. -/
def FitsParts : List (List Char) → List Char → Prop
  | [], n => n = []
  | part :: parts, n => ∃ run rest, n = run ++ (part ++ rest) ∧ FitsParts parts rest

/-- So they do, and the first of them stands in front. -/
def FitsPieces : List (List Char) → List Char → Prop
  | [], _ => False
  | first :: parts, n => ∃ rest, n = first ++ rest ∧ FitsParts parts rest

theorem exists_pieces_eq_cons (separator : Char) (cs : List Char) :
    ∃ first parts, pieces separator cs = first :: parts := by
  cases cs with
  | nil => exact ⟨_, _, rfl⟩
  | cons c cs =>
    rw [pieces]
    split
    · exact ⟨_, _, rfl⟩
    · split <;> exact ⟨_, _, rfl⟩

/-- A name fits a pattern when it fits the pieces between the stars. -/
theorem fits_iff_fitsPieces : Fits p n ↔ FitsPieces (pieces '*' p) n := by
  induction p generalizing n with
  | nil =>
    constructor
    · rintro ⟨⟩
      exact ⟨[], rfl, rfl⟩
    · rintro ⟨rest, rfl, rfl⟩
      exact .nil
  | cons c p ih =>
    obtain ⟨first, parts, hpieces⟩ := exists_pieces_eq_cons '*' p
    rw [hpieces] at ih
    by_cases hc : c = '*'
    · subst hc
      rw [pieces, if_pos rfl, hpieces]
      constructor
      · rintro (_ | ⟨hc, -⟩ | ⟨run, h⟩)
        · exact absurd rfl hc
        · obtain ⟨rest, rfl, hparts⟩ := ih.mp h
          exact ⟨_, rfl, run, rest, rfl, hparts⟩
      · rintro ⟨_, rfl, run, rest, rfl, h⟩
        exact .star run (ih.mpr ⟨rest, rfl, h⟩)
    · rw [pieces, if_neg hc, hpieces]
      constructor
      · rintro (_ | ⟨-, h⟩ | -)
        · obtain ⟨rest, rfl, hparts⟩ := ih.mp h
          exact ⟨rest, rfl, hparts⟩
        · exact absurd rfl hc
      · rintro ⟨rest, rfl, h⟩
        exact .char hc (ih.mpr ⟨rest, rfl, h⟩)

/-! ## The first place -/

theorem dropFront?_eq_some_iff : dropFront? part cs = some rest ↔ cs = part ++ rest := by
  unfold dropFront?
  split
  · rename_i h
    obtain ⟨rest', rfl⟩ := List.isPrefixOf_iff_prefix.mp h
    simp
  · rename_i h
    refine ⟨fun h => (nomatch h), ?_⟩
    rintro rfl
    exact absurd (List.isPrefixOf_iff_prefix.mpr (List.prefix_append ..)) h

/-- What a piece is dropped through ends with the piece. -/
theorem eq_append_of_dropThrough? (h : dropThrough? part cs = some rest) :
    ∃ run, cs = run ++ (part ++ rest) := by
  induction cs with
  | nil =>
    unfold dropThrough? at h
    split at h
    · rename_i hpart
      cases h
      exact ⟨[], by rw [List.isEmpty_iff.mp hpart]; rfl⟩
    · cases h
  | cons c cs ih =>
    unfold dropThrough? at h
    split at h
    · rename_i hpart
      obtain ⟨rest', hrest⟩ := List.isPrefixOf_iff_prefix.mp hpart
      rw [← hrest, List.drop_left] at h
      cases h
      exact ⟨[], hrest.symm⟩
    · obtain ⟨run, rfl⟩ := ih h
      exact ⟨c :: run, rfl⟩

/-- The first place leaves what any other place leaves, and perhaps something in front of it. -/
theorem exists_dropThrough?_eq_some (run part rest : List Char) :
    ∃ skipped, dropThrough? part (run ++ (part ++ rest)) = some (skipped ++ rest) := by
  induction run with
  | nil =>
    refine ⟨[], ?_⟩
    rcases part with _ | ⟨c, part⟩
    · cases rest <;> simp [dropThrough?]
    · rw [List.nil_append, List.cons_append, dropThrough?, ← List.cons_append,
        if_pos (List.isPrefixOf_iff_prefix.mpr (List.prefix_append ..)), List.drop_left,
        List.nil_append]
  | cons c run ih =>
    rw [List.cons_append, dropThrough?]
    split
    · rename_i h
      refine ⟨(c :: (run ++ part)).drop part.length, ?_⟩
      rw [← List.drop_append_of_le_length (by simp; omega)]
      simp
    · exact ih

/-- A piece in the middle is taken where it first stands, and the rest matched behind it. -/
theorem matchesParts_cons_cons (part next : List Char) (parts : List (List Char)) (cs : List Char) :
    matchesParts (part :: next :: parts) cs =
      match dropThrough? part cs with
      | some rest => matchesParts (next :: parts) rest
      | none => false :=
  rfl

/-- The matcher decides the fit : taking each piece where it first stands leaves the most for
the others. -/
theorem matchesParts_iff : matchesParts parts cs = true ↔ FitsParts parts cs := by
  induction parts generalizing cs with
  | nil => exact List.isEmpty_iff
  | cons part parts ih =>
    rcases parts with _ | ⟨next, parts⟩
    · rw [matchesParts, List.isSuffixOf_iff_suffix]
      constructor
      · rintro ⟨run, rfl⟩
        exact ⟨run, [], by rw [List.append_nil], rfl⟩
      · rintro ⟨run, _, rfl, rfl⟩
        exact ⟨run, by rw [List.append_nil]⟩
    · rw [matchesParts_cons_cons]
      constructor
      · intro h
        split at h
        · rename_i rest hrest
          obtain ⟨run, rfl⟩ := eq_append_of_dropThrough? hrest
          exact ⟨run, rest, rfl, ih.mp h⟩
        · cases h
      · rintro ⟨run, rest, rfl, run', rest', rfl, h⟩
        obtain ⟨skipped, hskipped⟩ := exists_dropThrough?_eq_some run part (run' ++ (next ++ rest'))
        rw [hskipped]
        exact ih.mpr ⟨skipped ++ run', rest', by simp, h⟩

/-- A name is accepted just if it fits the pattern. -/
theorem matchesName_iff {pattern name : String} :
    matchesName pattern name = true ↔ Fits pattern.toList name.toList := by
  obtain ⟨first, parts, hpieces⟩ := exists_pieces_eq_cons '*' pattern.toList
  rw [fits_iff_fitsPieces, matchesName, hpieces]
  rcases parts with _ | ⟨part, parts⟩
  · rw [beq_iff_eq]
    constructor
    · rintro rfl
      exact ⟨[], by rw [List.append_nil], rfl⟩
    · rintro ⟨_, hrest, rfl⟩
      rw [hrest, List.append_nil]
  · simp only [FitsPieces]
    constructor
    · intro h
      split at h
      · rename_i rest hrest
        exact ⟨rest, dropFront?_eq_some_iff.mp hrest, matchesParts_iff.mp h⟩
      · cases h
    · rintro ⟨rest, hrest, h⟩
      rw [dropFront?_eq_some_iff.mpr hrest]
      exact matchesParts_iff.mpr h

/-! ## What stands in place of the stars -/

/-- The pattern with the given texts in place of its stars, the first for the first star. -/
def filledFrom : List String → List Char → List Char
  | _, [] => []
  | runs, c :: p =>
    if c = '*' then (runs.headD "").toList ++ filledFrom runs.tail p else c :: filledFrom runs p

/-- The pattern with the texts in place of its stars, as a text. -/
def filled (pattern : String) (runs : List String) : String :=
  String.ofList (filledFrom runs pattern.toList)

theorem filledFrom_star (run : String) (runs : List String) (p : List Char) :
    filledFrom (run :: runs) ('*' :: p) = run.toList ++ filledFrom runs p :=
  rfl

theorem filledFrom_char (hc : c ≠ '*') (runs : List String) (p : List Char) :
    filledFrom runs (c :: p) = c :: filledFrom runs p := by
  rw [filledFrom, if_neg hc]

/-- A name fits a pattern just if it is the pattern with one text in place of each star. -/
theorem fits_iff_exists_filled : Fits p n ↔
    ∃ runs : List String, runs.length = p.count '*' ∧ filledFrom runs p = n := by
  constructor
  · intro h
    induction h with
    | nil => exact ⟨[], rfl, rfl⟩
    | char hc _ ih =>
      obtain ⟨runs, hlength, rfl⟩ := ih
      exact ⟨runs, by rwa [List.count_cons_of_ne hc], filledFrom_char hc runs _⟩
    | star run _ ih =>
      obtain ⟨runs, hlength, rfl⟩ := ih
      refine ⟨String.ofList run :: runs, ?_, ?_⟩
      · rw [List.length_cons, hlength, List.count_cons_self]
      · rw [filledFrom_star, String.toList_ofList]
  · rintro ⟨runs, hlength, rfl⟩
    induction p generalizing runs with
    | nil => exact .nil
    | cons c p ih =>
      by_cases hc : c = '*'
      · subst hc
        rw [List.count_cons_self] at hlength
        obtain ⟨run, runs, rfl⟩ := List.exists_cons_of_length_eq_add_one hlength
        rw [filledFrom_star]
        exact .star run.toList (ih runs (Nat.succ.inj hlength))
      · rw [List.count_cons_of_ne hc] at hlength
        rw [filledFrom_char hc]
        exact .char hc (ih runs hlength)

/-- What has no star in it stays as it is. -/
theorem filledFrom_of_not_mem (h : '*' ∉ p) (runs : List String) : filledFrom runs p = p := by
  induction p with
  | nil => rfl
  | cons c p ih =>
    rw [List.mem_cons, not_or] at h
    obtain ⟨hc, hp⟩ := h
    rw [filledFrom_char (Ne.symm hc), ih hp]

/-- **Stars stand for any texts.** A name is accepted just if it is the pattern with some text in
place of each star, maybe an empty one and another one for each. A pattern without stars accepts
itself only. -/
theorem matchesName_iff_exists_filled (pattern name : String) :
    (matchesName pattern name = true ↔ ∃ runs : List String,
      runs.length = pattern.toList.count '*' ∧ filled pattern runs = name) ∧
    ('*' ∉ pattern.toList → (matchesName pattern name = true ↔ name = pattern)) := by
  have hfilled (runs : List String) :
      filled pattern runs = name ↔ filledFrom runs pattern.toList = name.toList := by
    rw [filled, ← String.toList_inj, String.toList_ofList]
  simp only [hfilled, matchesName_iff, fits_iff_exists_filled, true_and]
  intro hstar
  simp only [filledFrom_of_not_mem hstar, List.count_eq_zero_of_not_mem hstar, String.toList_inj]
  exact ⟨fun ⟨_, _, h⟩ => h.symm, fun h => ⟨[], rfl, h.symm⟩⟩

/-- Nothing may stand in place of the star, but the pieces around it do not overlap. -/
theorem matchesName_iff_exists_filled_overlap :
    (¬∃ runs : List String, runs.length = 1 ∧ filled "ab*ba" runs = "aba") ∧
    filled "ab*ba" [""] = "abba" ∧ matchesName "ab*ba" "abba" = true ∧
    '*' ∉ "title".toList ∧ (matchesName "title" "titles" = true ↔ "titles" = "title") := by
  have hstar : '*' ∉ "title".toList := by decide
  have hoverlap : ¬matchesName "ab*ba" "aba" = true := by decide +kernel
  have hfilled : filled "ab*ba" [""] = "abba" := by decide +kernel
  refine ⟨fun h => hoverlap ((matchesName_iff_exists_filled _ _).1.mpr h), hfilled, ?_, hstar,
    (matchesName_iff_exists_filled _ _).2 hstar⟩
  exact (matchesName_iff_exists_filled _ _).1.mpr ⟨[""], rfl, hfilled⟩

end ArchiveLabels.Selector
