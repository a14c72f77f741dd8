import ArchiveLabels.FileSystem.Resolve

/-!
# Absolute spellings

What tells two absolute spellings apart is the list of names in them : `Path.inner` lists those of a
path as they are spelled, and `FileSystem.trail` puts the current directory in front if need be.
`FileSystem.absolute_eq_ofComponents` : the absolute spelling of a path is that of its trail, and
`FileSystem.components_absolute` reads the trail off again, so that paths of one absolute spelling
have one trail (`FileSystem.absolute_inj`).
-/

namespace ArchiveLabels

/-! ## Pieces -/

theorem Text.pieces_eq_splitOn (separator : Char) (cs : List Char) :
    Text.pieces separator cs = cs.splitOn separator := by
  induction cs with
  | nil => simp [Text.pieces]
  | cons c cs ih =>
    rw [Text.pieces, List.splitOn_cons_eq_if_modifyHead, ih]
    by_cases hc : c = separator
    · simp [hc]
    · simp only [hc, if_false, beq_iff_eq]
      cases h : cs.splitOn separator with
      | nil => exact absurd h (List.splitOn_ne_nil separator cs)
      | cons p ps => rfl

theorem Text.not_mem_of_mem_pieces {separator : Char} {cs p : List Char}
    (h : p ∈ Text.pieces separator cs) : separator ∉ p := by
  induction cs generalizing p with
  | nil =>
    obtain rfl : p = [] := by simpa [Text.pieces] using h
    simp
  | cons c cs ih =>
    rw [Text.pieces] at h
    split at h
    · rcases List.mem_cons.mp h with rfl | h
      · simp
      · exact ih h
    · rename_i hc
      split at h
      · obtain rfl : p = [c] := by simpa using h
        simpa using Ne.symm hc
      · rename_i q qs hq
        rcases List.mem_cons.mp h with rfl | h
        · have := ih (p := q) (by simp [hq])
          simp [Ne.symm hc, this]
        · exact ih (by simp [hq, h])

namespace Component

/-- A component that may stand behind another one and is spelled as it is. -/
def Inner : Component → Prop
  | up => True
  | name n => n ≠ "" ∧ n ≠ "." ∧ n ≠ ".." ∧ '/' ∉ n.toList
  | _ => False

/-- No component is cut by a slash of its own. -/
theorem Inner.slash_not_mem_text {c : Component} (h : c.Inner) : '/' ∉ c.text.toList := by
  cases c with
  | name n => exact h.2.2.2
  | up => decide
  | _ => exact h.elim

/-- The text of an inner component reads back as the component. -/
theorem Inner.innerComponent?_text {c : Component} (h : c.Inner) :
    Path.innerComponent? c.text = some c := by
  cases c with
  | name n => simp [text, Path.innerComponent?, h.1, h.2.1, h.2.2.1]
  | up => rfl
  | _ => exact h.elim

theorem Inner.ne_here {c : Component} (h : c.Inner) : c ≠ here := by
  rintro rfl
  exact h

end Component

namespace Path

/-- The names in a path, with `..` among them, as they are spelled. -/
def inner (p : Path) : List Component :=
  p.segments.filterMap innerComponent?

/-- An inner component that was read is written as it stood. -/
theorem inner_of_innerComponent? {s : String} {c : Component} (hs : '/' ∉ s.toList)
    (h : innerComponent? s = some c) : c.Inner ∧ c.text = s := by
  unfold innerComponent? at h
  split at h
  · cases h
  · rename_i hne
    simp only [Bool.or_eq_true, decide_eq_true_eq, not_or] at hne
    split at h
    · rename_i hup
      obtain rfl := Option.some.inj h
      exact ⟨trivial, hup.symm⟩
    · rename_i hup
      obtain rfl := Option.some.inj h
      exact ⟨⟨hne.1, hne.2, hup, hs⟩, rfl⟩

theorem slash_not_mem_of_mem_segments {p : Path} {s : String} (h : s ∈ p.segments) :
    '/' ∉ s.toList := by
  obtain ⟨cs, hcs, rfl⟩ := List.mem_map.mp h
  simpa using Text.not_mem_of_mem_pieces hcs

/-- The inner components of a path are inner. -/
theorem inner_of_mem_inner {p : Path} {c : Component} (h : c ∈ p.inner) : c.Inner := by
  obtain ⟨s, hs, hc⟩ := List.mem_filterMap.mp h
  exact (inner_of_innerComponent? (slash_not_mem_of_mem_segments hs) hc).1

theorem segments_ne_nil (p : Path) : p.segments ≠ [] := by
  simp [segments, Text.pieces_eq_splitOn]

/-- The segments of a path that starts at the root : an empty one, and at least one more. -/
theorem segments_of_isAbsolute {p : Path} (h : p.isAbsolute = true) :
    ∃ rest, p.segments = "" :: rest ∧ rest ≠ [] := by
  obtain ⟨cs, hcs⟩ : ∃ cs, p.text.toList = '/' :: cs := by
    cases ht : p.text.toList with
    | nil => simp [isAbsolute, ht] at h
    | cons c cs => exact ⟨cs, by simp_all [isAbsolute]⟩
  refine ⟨(Text.pieces '/' cs).map String.ofList, by simp [segments, hcs, Text.pieces], ?_⟩
  simp [Text.pieces_eq_splitOn]

/-- The first segment of a path that is not empty and does not start at the root is not empty. -/
theorem segments_of_not_isAbsolute {p : Path} (hne : p.text ≠ "") (h : p.isAbsolute = false) :
    ∃ first rest, p.segments = first :: rest ∧ first ≠ "" := by
  cases ht : p.text.toList with
  | nil => exact absurd (String.toList_eq_nil_iff.mp ht) hne
  | cons c cs =>
    have hc : c ≠ '/' := by
      rintro rfl
      simp [isAbsolute, ht] at h
    rw [segments, ht, Text.pieces, if_neg hc]
    split
    · exact ⟨_, _, rfl, by simp⟩
    · exact ⟨_, _, rfl, by simp⟩

theorem text_ne_of_fileName? {p : Path} {n : String} (h : p.fileName? = some n) : p.text ≠ "" := by
  intro hp
  simp [fileName?, components, segments, hp, Text.pieces] at h

/-- An absolute path has the root in front. -/
theorem components_of_isAbsolute {p : Path} (h : p.isAbsolute = true) :
    p.components = .root :: p.inner := by
  obtain ⟨rest, hs, hr⟩ := segments_of_isAbsolute h
  have hi : p.inner = rest.filterMap innerComponent? := by
    rw [inner, hs]
    rfl
  simp [components, hs, hi, hr]

/-- A `.` in front does not make a difference to an absolute spelling. -/
theorem components_of_not_isAbsolute {p : Path} (hne : p.text ≠ "") (h : p.isAbsolute = false) :
    p.components.filter (· ≠ .here) = p.inner := by
  obtain ⟨first, rest, hs, hf⟩ := segments_of_not_isAbsolute hne h
  have hfilter : p.inner.filter (· ≠ .here) = p.inner :=
    List.filter_eq_self.mpr fun c hc => by simpa using (inner_of_mem_inner hc).ne_here
  by_cases hd : first = "."
  · subst hd
    have hi : p.inner = rest.filterMap innerComponent? := by
      rw [inner, hs]
      rfl
    rw [← hfilter, hi]
    simp [components, hs]
  · rw [← hfilter]
    congr 1
    simp only [components, inner, hs, hf, hd, if_false]
    cases hc : innerComponent? first <;> simp [hc]

/-- The file name of a path is the last of the names in it. -/
theorem getLast?_inner {p : Path} {n : String} (h : p.fileName? = some n) :
    p.inner.getLast? = some (.name n) := by
  have hlast : p.components.getLast? = some (.name n) := by
    unfold fileName? at h
    split at h
    · rename_i hn
      rw [hn, Option.some.inj h]
    · cases h
  cases ha : p.isAbsolute with
  | true =>
    rw [components_of_isAbsolute ha] at hlast
    cases hi : p.inner with
    | nil => simp [hi] at hlast
    | cons c cs => rwa [hi, List.getLast?_cons_cons] at hlast
  | false =>
    obtain ⟨cs, hcs⟩ := List.getLast?_eq_some_iff.mp hlast
    rw [← components_of_not_isAbsolute (text_ne_of_fileName? h) ha, hcs, List.filter_append]
    simp

/-! ## From components to spellings -/

theorem ofComponents_root (cs : List Component) :
    ofComponents (.root :: cs) = ⟨"/" ++ String.intercalate "/" (cs.map Component.text)⟩ := rfl

theorem isAbsolute_ofComponents_root (cs : List Component) :
    (ofComponents (.root :: cs)).isAbsolute = true := by
  simp [ofComponents_root, isAbsolute]

/-- A path put together is cut where it was joined. -/
theorem segments_ofComponents_root {cs : List Component} (h : ∀ c ∈ cs, c.Inner) :
    (ofComponents (.root :: cs)).segments =
      "" :: if cs = [] then [""] else cs.map Component.text := by
  by_cases hcs : cs = []
  · subst hcs
    simp [segments, ofComponents_root, Text.pieces]
  · have hsplit : (['/'].intercalate ((cs.map Component.text).map String.toList)).splitOn '/' =
        (cs.map Component.text).map String.toList := by
      apply List.splitOn_intercalate
      · intro l hl
        simp only [List.map_map, List.mem_map, Function.comp_apply] at hl
        obtain ⟨c, hc, rfl⟩ := hl
        exact (h c hc).slash_not_mem_text
      · simpa using hcs
    have htext : (ofComponents (.root :: cs)).text.toList =
        '/' :: ['/'].intercalate ((cs.map Component.text).map String.toList) := by
      simp [ofComponents_root]
    rw [segments, htext, Text.pieces, if_pos rfl, Text.pieces_eq_splitOn, hsplit, if_neg hcs]
    simp

theorem filterMap_innerComponent?_text {cs : List Component} (h : ∀ c ∈ cs, c.Inner) :
    (cs.map Component.text).filterMap innerComponent? = cs := by
  induction cs with
  | nil => rfl
  | cons c cs ih =>
    rw [List.map_cons, List.filterMap_cons_some (h c List.mem_cons_self).innerComponent?_text,
      ih fun d hd => h d (List.mem_cons_of_mem c hd)]

/-- The components of a path put together are those it was put together from. -/
theorem inner_ofComponents_root {cs : List Component} (h : ∀ c ∈ cs, c.Inner) :
    (ofComponents (.root :: cs)).inner = cs := by
  rw [inner, segments_ofComponents_root h, List.filterMap_cons_none (by rfl)]
  by_cases hcs : cs = []
  · subst hcs
    rfl
  · rw [if_neg hcs, filterMap_innerComponent?_text h]

/-- The components of a spelling of names are the names. -/
theorem components_ofComponents_root {cs : List Component} (h : ∀ c ∈ cs, c.Inner) :
    (ofComponents (.root :: cs)).components = .root :: cs := by
  rw [components_of_isAbsolute (isAbsolute_ofComponents_root cs), inner_ofComponents_root h]

end Path

/-! ## The current directory -/

namespace FileSystem

/-- The names that lead to the current directory may be names of entries. -/
def HasProperHere (fs : FileSystem) : Prop :=
  ∀ n ∈ fs.here, (Component.name n).Inner

/-- The names on the way from the root to where a path leads. -/
def trail (fs : FileSystem) (p : Path) : List Component :=
  (if p.isAbsolute then [] else fs.here.reverse.map .name) ++ p.inner

variable {fs : FileSystem} {p q : Path}

/-- The trail has no dot, and no empty name. -/
theorem inner_of_mem_trail (h : fs.HasProperHere) : ∀ c ∈ fs.trail p, c.Inner := by
  intro c hc
  rcases List.mem_append.mp hc with hc | hc
  · split at hc
    · simp at hc
    · obtain ⟨n, hn, rfl⟩ := List.mem_map.mp hc
      exact h n (List.mem_reverse.mp hn)
  · exact Path.inner_of_mem_inner hc

theorem workingDirectory_eq (fs : FileSystem) :
    fs.workingDirectory = Path.ofComponents (.root :: fs.here.reverse.map .name) := by
  rw [Path.ofComponents_root, List.map_map,
    show Component.text ∘ Component.name = id from rfl, List.map_id]
  rfl

/-- The absolute path is the trail behind the root. -/
theorem absolute_eq_ofComponents (h : fs.HasProperHere) (hp : p.text ≠ "") :
    fs.absolute p = Path.ofComponents (.root :: fs.trail p) := by
  unfold absolute Path.absolute trail
  rw [if_neg hp]
  cases ha : p.isAbsolute with
  | true => simp [Path.components_of_isAbsolute ha]
  | false =>
    have hcwd : fs.workingDirectory.components = .root :: fs.here.reverse.map .name := by
      rw [workingDirectory_eq]
      apply Path.components_ofComponents_root
      intro c hc
      obtain ⟨n, hn, rfl⟩ := List.mem_map.mp hc
      exact h n (List.mem_reverse.mp hn)
    simp only [Bool.false_eq_true, if_false, hcwd, Path.components_of_not_isAbsolute hp ha,
      List.cons_append]

/-- The components of an absolute path are the root and the trail. -/
theorem components_absolute (h : fs.HasProperHere) (hp : p.text ≠ "") :
    (fs.absolute p).components = .root :: fs.trail p := by
  rw [absolute_eq_ofComponents h hp, Path.components_ofComponents_root (inner_of_mem_trail h)]

/-- Paths of one absolute spelling are those of one trail. -/
theorem absolute_inj (h : fs.HasProperHere) (hp : p.text ≠ "") (hq : q.text ≠ "") :
    fs.absolute p = fs.absolute q ↔ fs.trail p = fs.trail q := by
  constructor
  · intro he
    have := congrArg Path.components he
    rw [components_absolute h hp, components_absolute h hq] at this
    exact (List.cons.inj this).2
  · intro he
    rw [absolute_eq_ofComponents h hp, absolute_eq_ofComponents h hq, he]

/-- The trail of a named file ends in the name. -/
theorem getLast?_trail {n : String} (h : p.fileName? = some n) :
    (fs.trail p).getLast? = some (.name n) := by
  obtain ⟨cs, hcs⟩ := List.getLast?_eq_some_iff.mp (Path.getLast?_inner h)
  rw [trail, hcs, ← List.append_assoc, List.getLast?_concat]

end FileSystem

end ArchiveLabels
