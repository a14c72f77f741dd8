import ArchiveLabels.Proofs.Crawl.Restart
import ArchiveLabels.Proofs.Record.RoundTrip

/-!
# Records on lines

`Text.InLines` : a text is made of the given lines, each with a line feed behind it and none inside.
The lines of records are such lines, one for each record (`Record.inLines_linesText`), so that the
text of a cache is read back as it was written (`RecordCache.parse?_linesText`). A file of such
lines keeps the records (`FileSystem.keepsRecords_of_read`).
-/

namespace ArchiveLabels

/-! ## Lines -/

namespace Text

variable {text : String} {ls ms : List String}

/-- The text is made of the given lines, each with a line feed behind it. -/
structure InLines (text : String) (ls : List String) : Prop where
  text_eq : text = String.join (ls.map (· ++ "\n"))
  newline_not_mem : ∀ l ∈ ls, '\n' ∉ l.toList

/-- Texts in lines, one behind the other, are the lines of both. -/
theorem InLines.append {other : String} (h : InLines text ls) (h' : InLines other ms) :
    InLines (text ++ other) (ls ++ ms) where
  text_eq := by rw [h.text_eq, h'.text_eq, List.map_append, String.join_append]
  newline_not_mem l hl := (List.mem_append.mp hl).elim (h.newline_not_mem l) (h'.newline_not_mem l)

theorem pieces_line {l : List Char} (h : '\n' ∉ l) (cs : List Char) :
    pieces '\n' (l ++ '\n' :: cs) = l :: pieces '\n' cs := by
  induction l with
  | nil => rw [List.nil_append, pieces, if_pos rfl]
  | cons c l ih =>
    obtain ⟨hc, hl⟩ := not_or.mp (mt List.mem_cons.mpr h)
    rw [List.cons_append, pieces, if_neg (Ne.symm hc), ih hl]

/-- The pieces of a text are its lines and what stands behind the last of them. -/
theorem InLines.pieces_eq (h : InLines text ls) :
    pieces '\n' text.toList = ls.map String.toList ++ [[]] := by
  obtain ⟨rfl, hls⟩ := h
  induction ls with
  | nil => rfl
  | cons l ls ih =>
    have hl : (String.join ((l :: ls).map (· ++ "\n"))).toList =
        l.toList ++ '\n' :: (String.join (ls.map (· ++ "\n"))).toList := by
      simp
    rw [hl, pieces_line (hls l List.mem_cons_self),
      ih fun m hm => hls m (List.mem_cons_of_mem l hm)]
    rfl

end Text

/-- The lines of a file are those of its text. -/
theorem RecordCache.fileLines_of_inLines {text : String} {ls : List String}
    (h : Text.InLines text ls) : fileLines text = ls := by
  rw [fileLines, h.pieces_eq, List.reverse_append]
  simp [Function.comp_def]

/-! ## Lines of records -/

namespace Record

/-- Every record is one line of the text. -/
theorem inLines_linesText (rs : List Record) :
    Text.InLines (linesText rs) (rs.map fun r => r.toJson.compact) where
  text_eq := by rw [linesText, List.map_map]; rfl
  newline_not_mem l hl := by
    obtain ⟨r, -, rfl⟩ := List.mem_map.mp hl
    exact Json.newline_not_mem_compact r.isPlain_toJson

/-- A batch appended is the text of both batches. -/
theorem linesText_append (rs qs : List Record) :
    linesText (rs ++ qs) = linesText rs ++ linesText qs := by
  rw [linesText, List.map_append, String.join_append]
  rfl

end Record

namespace RecordCache

/-- The text of records is read back as it was written. -/
theorem parse?_linesText {rs : List Record} (h : ∀ r ∈ rs, r.LinesFit) :
    parse? (Record.linesText rs) = some ⟨rs⟩ := by
  have hread : (rs.map fun r => r.toJson.compact).mapM
      (fun l => (Json.parse? l).bind Record.ofJson?) = some rs := by
    refine Json.mapM_map ?_
    exact fun r hr => Record.parse?_compact (h r hr)
  rw [parse?, fileLines_of_inLines (Record.inLines_linesText rs), hread, Option.map_some]

end RecordCache

/-! ## Files of records -/

/-- The text has a line for each record, from which the record is read. -/
def Record.OnLines (text : String) (rs : List Record) : Prop :=
  ∃ ls, Text.InLines text ls ∧
    List.Forall₂ (fun l r => (Json.parse? l).bind Record.ofJson? = some r) ls rs

namespace FileSystem

variable {fs gs : FileSystem} {p : Path} {rs : List Record}

/-- The file at a path keeps the records : they are loaded from it, and each has a line there. -/
structure KeepsRecords (fs : FileSystem) (p : Path) (rs : List Record) : Prop where
  loaded : fs.readRecordCache p = .ok ⟨rs⟩
  onLines : ∃ text, fs.readText p = .ok text ∧ Record.OnLines text rs

/-- A file with the text of records keeps them. -/
theorem keepsRecords_of_read (h : ∀ r ∈ rs, r.LinesFit)
    (hread : fs.read p = .ok (Text.Utf8.encode (Record.linesText rs))) : fs.KeepsRecords p rs := by
  have htext := readText_of_read hread
  obtain ⟨place, t, hl⟩ := read_eq_ok_iff.mp hread
  have hhas : fs.has p = true := by
    rw [has, entry?_eq_ok_iff.mpr ⟨place, hl⟩]
    rfl
  refine ⟨?_, _, htext, _, Record.inLines_linesText rs, ?_⟩
  · rw [readRecordCache, hhas, htext]
    simp only [RecordCache.parse?_linesText h, Bool.not_true, Bool.false_eq_true, if_false]
  · exact List.forall₂_map_left_iff.mpr
      (List.forall₂_same.mpr fun r hr => Record.parse?_compact (h r hr))

/-- Records that were saved are kept. -/
theorem keepsRecords_of_save {c : RecordCache} (h : ∀ r ∈ c.records, r.LinesFit)
    (hsave : (c.save p).run fs = (.ok (), gs)) : gs.KeepsRecords p c.records := by
  rw [RecordCache.save_eq] at hsave
  obtain ⟨place, t, hl⟩ := found_of_saveText_ok hsave
  exact keepsRecords_of_read h (read_eq_ok_iff.mpr ⟨place, t, hl⟩)

end FileSystem

end ArchiveLabels
