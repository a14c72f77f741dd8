import ArchiveLabels.Crawl.Crawler

/-!
# Structural problems

A problem is structural if it says that a label is none at all. Only the check of the form of a
label finds such problems : none of the problems of extraction, of the checks of records and of the
comparison of checksums is structural. So the items of a crawl for which there are records can be
told from the others by their problems. Each problem of extraction is about a node of the label
(`Problem.FoundAt`).
-/

namespace ArchiveLabels

open Label

namespace Label.Tree

/-- The problem that stops a label is structural. -/
theorem isStructural_of_structuralProblem? {t : Tree} {source : String} {p : Problem}
    (h : t.structuralProblem? source = some p) : p.isStructural = true := by
  obtain ⟨message, -, rfl⟩ := Option.map_eq_some_iff.mp h
  rfl

end Label.Tree

/-! ## Problems of extraction -/

/-- The problem is about node `i` of the label and is not structural. -/
structure Problem.FoundAt (q : Problem) (t : Tree) (source : String) (i : Nat) : Prop where
  not_isStructural : q.isStructural = false
  source : q.source = source
  line : q.line = some (t.pos i).line
  column : q.column = some (t.pos i).column

theorem Label.Tree.foundAt_problemAt {t : Tree} {i : Nat} {kind : ProblemKind}
    {message source : String} (h : kind.isStructural = false) :
    (t.problemAt i kind message source).FoundAt t source i :=
  ⟨h, rfl, rfl, rfl⟩

namespace Extraction.Modern

variable {q : Policy} {t : Tree} {source : String} {i : Nat} {p : Problem}

theorem foundAt_of_malformed? (h : malformed? t source i = some p) : p.FoundAt t source i := by
  unfold malformed? at h
  split at h
  · split at h
    · cases h
    · obtain rfl := Option.some.inj h
      exact Tree.foundAt_problemAt rfl
  · split at h
    · obtain rfl := Option.some.inj h
      exact Tree.foundAt_problemAt rfl
    · cases h

theorem foundAt_of_unmapped? (h : unmapped? q t source i = some p) : p.FoundAt t source i := by
  unfold unmapped? at h
  split at h
  · obtain rfl := Option.some.inj h
    exact Tree.foundAt_problemAt rfl
  · cases h

theorem foundAt_of_lack? (h : lack? q t source i = some p) : p.FoundAt t source i := by
  unfold lack? at h
  split at h
  · split at h
    · cases h
    · obtain rfl := Option.some.inj h
      exact Tree.foundAt_problemAt rfl
  · split at h
    · obtain rfl := Option.some.inj h
      exact Tree.foundAt_problemAt rfl
    · cases h

/-- A problem is about an association element or one of its children. -/
theorem exists_foundAt_of_mem_problems (h : p ∈ problems q t source) :
    ∃ element ∈ associations t, ∃ i, (i = element ∨ i ∈ t.children element) ∧
      p.FoundAt t source i := by
  obtain ⟨element, he, h⟩ := List.mem_flatMap.mp h
  refine ⟨element, he, ?_⟩
  rcases List.mem_append.mp h with h | h
  · obtain ⟨i, hi, h⟩ := List.mem_flatMap.mp h
    rcases List.mem_append.mp h with h | h
    · exact ⟨i, .inr hi, foundAt_of_malformed? (Option.mem_toList.mp h)⟩
    · exact ⟨i, .inr hi, foundAt_of_unmapped? (Option.mem_toList.mp h)⟩
  · exact ⟨element, .inl rfl, foundAt_of_lack? (Option.mem_toList.mp h)⟩

end Extraction.Modern

/-- No problem of an extraction is structural, so that a record never stands beside one. -/
theorem Label.Tree.not_isStructural_of_mem_extract {t : Tree} {q : Policy} {source : String}
    {p : Problem} (h : p ∈ (t.extract q source).problems) : p.isStructural = false := by
  unfold extract at h
  split at h
  · obtain ⟨-, -, i, -, hfound⟩ := Extraction.Modern.exists_foundAt_of_mem_problems h
    exact hfound.not_isStructural
  · simp at h

/-- No rule for a record reports a structural problem. -/
theorem Record.not_isStructural_of_mem_check {r : Record} {q : Policy} {p : Problem}
    (h : p ∈ r.check q) : p.isStructural = false := by
  simp only [check, List.mem_append, Option.mem_toList] at h
  rcases h with (((h | h) | h) | h) | h
  · obtain ⟨f, -, rfl⟩ := List.mem_map.mp h
    rfl
  · simp only [illegalCharacter?, Option.bind_eq_bind, Option.bind_eq_some_iff] at h
    obtain ⟨i, -, c, -, h⟩ := h
    obtain rfl := Option.some.inj h
    rfl
  · simp only [illegalSuffix?, Option.bind_eq_bind, Option.bind_eq_some_iff] at h
    obtain ⟨i, -, s, -, h⟩ := h
    obtain rfl := Option.some.inj h
    rfl
  · simp only [longTitle?, Option.bind_eq_bind, Option.bind_eq_some_iff] at h
    obtain ⟨title, -, h⟩ := h
    split at h
    · obtain rfl := Option.some.inj h
      rfl
    · cases h
  · unfold noAssociations? at h
    split at h
    · obtain rfl := Option.some.inj h
      rfl
    · cases h

/-- No checksum reports a structural problem. -/
theorem Manifest.not_isStructural_of_mem_verify {m : Manifest} {cwd label : Path}
    {files : List DeclaredFile} {p : Problem} (h : p ∈ m.verify cwd label files) :
    p.isStructural = false := by
  obtain ⟨f, -, h⟩ := List.mem_filterMap.mp h
  unfold fileProblem? at h
  split at h
  · cases h
  · split at h
    · obtain rfl := Option.some.inj h
      rfl
    · split at h
      · cases h
      · obtain rfl := Option.some.inj h
        rfl

/-- A label without a structural problem is processed without one. -/
theorem Crawler.not_isStructural_of_mem_process {c : Crawler} {cwd p : Path} {t : Tree}
    (h : t.structuralProblem? p.text = none) {q : Problem}
    (hq : q ∈ (c.process cwd p t).1.problems) : q.isStructural = false := by
  simp only [process, h, List.mem_append] at hq
  rcases hq with (hq | hq) | hq
  · exact Tree.not_isStructural_of_mem_extract hq
  · exact Record.not_isStructural_of_mem_check hq
  · unfold checksumProblems at hq
    split at hq
    · exact Manifest.not_isStructural_of_mem_verify hq
    · simp at hq

end ArchiveLabels
