import ArchiveLabels.Proofs.FileSystem.Frame
import ArchiveLabels.Proofs.FileSystem.Trail

/-!
# Paths of any length

A path that is too long cannot be looked up, but it still says which way to go.
`FileSystem.reaches` : its segments lead to a place, however many bytes it has. What is found by going
through directories has such a path : each name is put behind the path of the directory that it
stands in (`FileSystem.reaches_descend`).

`FileSystem.DiffersOnlyAt` : two file systems are the same but for one file, which may be missing in
either. All paths that do not reach this file then reach the same in both
(`FileSystem.DiffersOnlyAt.leads`), and the same is there (`FileSystem.DiffersOnlyAt.entry?_eq`,
`FileSystem.DiffersOnlyAt.form?_eq`).
-/

namespace ArchiveLabels

/-! ## Names -/

mutual

/-- The entries of directories have names that paths may be made of. -/
def Entry.Proper : Entry → Prop
  | .directory d => d.Proper
  | _ => True

/-- The entries have names that paths may be made of, and so have those of the directories among
them. -/
def Directory.Proper : Directory → Prop
  | .empty => True
  | .entry name e rest =>
    ((Component.name name).Inner ∧ name.utf8ByteSize ≤ FileSystem.longestName) ∧ e.Proper ∧ rest.Proper

end

namespace Directory

theorem proper_of_get? {name : String} {e : Entry} {d : Directory} (hp : d.Proper)
    (h : d.get? name = some e) :
    ((Component.name name).Inner ∧ name.utf8ByteSize ≤ FileSystem.longestName) ∧ e.Proper := by
  fun_induction get? name d with
  | case1 => cases h
  | case2 =>
    obtain rfl := Option.some.inj h
    exact ⟨hp.1, hp.2.1⟩
  | case3 n f rest _ ih => exact ih hp.2.2 h

theorem proper_of_at? {root : Directory} {place : List String} {e : Entry} (hp : root.Proper)
    (h : root.at? place = some e) : e.Proper :=
  forall_at? (P := Entry.Proper) (fun hp h => (proper_of_get? hp h).2) hp h

/-- What stands somewhere has a name that a path may be made of. -/
theorem proper_of_look {root : Directory} {name : String} {place : List String} {f : Form}
    (hp : root.Proper) (h : root.look (name :: place) = some f) :
    (Component.name name).Inner ∧ FileSystem.Names name := by
  obtain ⟨d, hd⟩ := look_eq_directory_iff.mp (look_eq_directory_of_cons h)
  rw [look, at?_cons_of_directory hd] at h
  obtain ⟨e, he, -⟩ := Option.map_eq_some_iff.mp h
  obtain ⟨hi, hs⟩ := (proper_of_get? (proper_of_at? hp hd) he).1
  exact ⟨hi, fun hb => hb.elim hi.1 hi.2.1, hi.2.2.1, hs⟩

end Directory

/-! ## Segments of joined paths -/

namespace Text

/-- Cutting at a separator cuts on both sides of it. -/
theorem pieces_append_cons (separator : Char) (cs ds : List Char) :
    pieces separator (cs ++ separator :: ds) = pieces separator cs ++ pieces separator ds := by
  simp only [pieces_eq_splitOn, List.splitOn]
  exact List.splitOnP_append_cons cs ds (by simp)

theorem pieces_eq_singleton {separator : Char} {cs : List Char} (h : separator ∉ cs) :
    pieces separator cs = [cs] := by
  rw [pieces_eq_splitOn, List.splitOn_eq_singleton h]

end Text

namespace Path

variable {p : Path} {n : String}

/-- The segments of a path with a name behind it : those of the path, without the empty one behind a
slash at the end, and the name. -/
theorem segments_join (hp : p.text ≠ "") (hn : (Component.name n).Inner) :
    ∃ front, (p.segments = front ∨ p.segments = front ++ [""]) ∧
      (p.join ⟨n⟩).segments = front ++ [n] ∧ (p.join ⟨n⟩).isAbsolute = p.isAbsolute := by
  have hname : Text.pieces '/' n.toList = [n.toList] := Text.pieces_eq_singleton hn.2.2.2
  have hrel : isAbsolute ⟨n⟩ = false := by
    unfold isAbsolute
    have hslash := hn.2.2.2
    cases ht : n.toList with
    | nil => rfl
    | cons c cs =>
      have hc : c ≠ '/' := fun h => hslash (by simp [ht, h])
      simp [hc]
  obtain ⟨c, cs, hcs⟩ : ∃ c cs, p.text.toList = c :: cs :=
    List.exists_cons_of_ne_nil (mt String.toList_eq_nil_iff.mp hp)
  unfold join
  rw [hrel, if_neg Bool.false_ne_true]
  by_cases hend : p.text.toList.getLast? = some '/'
  · rw [if_pos (by simp [hend])]
    obtain ⟨ds, hds⟩ := List.getLast?_eq_some_iff.mp hend
    refine ⟨(Text.pieces '/' ds).map String.ofList, .inr ?_, ?_, ?_⟩
    · rw [segments, hds, Text.pieces_append_cons]
      simp [Text.pieces]
    · have htext : (p.text ++ n).toList = ds ++ '/' :: n.toList := by simp [hds]
      rw [segments, htext, Text.pieces_append_cons, hname]
      simp
    · simp [isAbsolute, hcs]
  · rw [if_neg (by simp [hend, hp])]
    refine ⟨p.segments, .inl rfl, ?_, ?_⟩
    · have htext : (p.text ++ "/" ++ n).toList = p.text.toList ++ '/' :: n.toList := by simp
      rw [segments, htext, Text.pieces_append_cons, hname]
      simp [segments]
    · simp [isAbsolute, hcs]

theorem text_join_ne (hn : (Component.name n).Inner) : (p.join ⟨n⟩).text ≠ "" := by
  unfold join
  split
  · exact hn.1
  split
  · simp [hn.1]
  · simp

/-- The path of what is come to behind a path by names, outermost first. -/
def descend (p : Path) (names : List String) : Path :=
  names.foldl (fun p n => p.join ⟨n⟩) p

end Path

namespace FileSystem

variable {fs gs : FileSystem} {p q : Path} {place here : List String} {e : Entry}

/-! ## Where segments lead -/

/-- The segments of the path lead to the place. -/
def reaches (fs : FileSystem) (place : List String) (p : Path) : Bool :=
  match follow fs.root true linkBound (fs.start p) p.segments with
  | .ok (.found q _) => q = place
  | _ => false

/-- A place is reached by the paths that lead to an entry there. -/
theorem reaches_iff : fs.reaches place p = true ↔
    ∃ e, Leads fs.root true linkBound (fs.start p) p.segments (.found place e) := by
  simp only [← follow_eq_ok_iff]
  unfold reaches
  cases follow fs.root true linkBound (fs.start p) p.segments with
  | error e => simp
  | ok r => cases r <;> simp

theorem reaches_of_locate (h : fs.locate true p = .ok (.found place e)) :
    fs.reaches place p = true :=
  reaches_iff.mpr ⟨e, leads_of_locate h⟩

/-- Paths of one key reach one place. -/
theorem eq_of_reaches_of_components_eq (hh : fs.HasProperHere) {place' : List String}
    (hq : q.text ≠ "") (h : fs.reaches place p = true) (h' : fs.reaches place' q = true)
    (hc : (fs.absolute p).components = (fs.absolute q).components) : place = place' := by
  obtain ⟨e, he⟩ := reaches_iff.mp h
  obtain ⟨e', he'⟩ := reaches_iff.mp h'
  rw [components_absolute hh hq] at hc
  by_cases hp : p.text = ""
  · simp [absolute, Path.absolute, hp, Path.components, Path.segments, Text.pieces] at hc
  · rw [components_absolute hh hp] at hc
    exact (he.eq_of_trail_eq hh he' (List.cons.inj hc).2).1

/-- Further segments are gone through from where the first ones lead. -/
theorem Leads.append {root : Directory} {n : Nat} {segments rest : List String} {r r' : Place}
    (h : Leads root true n here segments r) (hr : r = .found place e)
    (hrest : ∀ n, Leads root true n place rest r') : Leads root true n here (segments ++ rest) r' := by
  induction h with
  | arrived =>
    cases hr
    exact hrest _
  | skip hd hs _ ih => exact .skip hd hs (ih hr)
  | up hd _ ih => exact .up hd (ih hr)
  | vacant => cases hr
  | stay _ _ hl => cases hl
  | link hs hg _ _ ih =>
    have hrest := ih hr
    rw [List.append_assoc] at hrest
    exact .link hs hg (fun _ => rfl) hrest
  | enter hs hg hf _ ih => exact .enter hs hg hf (ih hr)

/-- The path of a directory with the name of a file or directory in it behind. -/
theorem reaches_join {n : String} {f : Form} (hproper : fs.root.Proper) (hp : p.text ≠ "")
    (h : fs.reaches place p = true) (hf : fs.root.look (n :: place) = some f)
    (hl : ∀ target, f ≠ .link target) : fs.reaches (n :: place) (p.join ⟨n⟩) = true := by
  obtain ⟨hi, hname⟩ := Directory.proper_of_look hproper hf
  obtain ⟨e, he⟩ := reaches_iff.mp h
  obtain ⟨front, hfront, hsegments, habsolute⟩ := Path.segments_join hp hi
  have hlead : Leads fs.root true linkBound (fs.start p) front (.found place e) := by
    rcases hfront with hfront | hfront
    · rwa [hfront] at he
    · rw [hfront] at he
      have ht : Trims (front ++ [""]) (front ++ []) :=
        (Trims.drop (.inl rfl) .nil).append_left front
      rw [List.append_nil] at ht
      exact he.trims rfl ht
  obtain ⟨g, hg, hform⟩ := Option.map_eq_some_iff.mp hf
  refine reaches_iff.mpr ⟨g, ?_⟩
  rw [hsegments, show fs.start (p.join ⟨n⟩) = fs.start p by rw [start, habsolute, start]]
  exact hlead.append rfl fun n => .enter hname hf hl (.arrived hg)

/-- The path of what is come to from a directory through directories. -/
theorem reaches_descend {names : List String} {f : Form} (hproper : fs.root.Proper)
    (hp : p.text ≠ "") (h : fs.reaches here p = true)
    (hf : fs.root.look (names.reverse ++ here) = some f) (hl : ∀ target, f ≠ .link target) :
    fs.reaches (names.reverse ++ here) (p.descend names) = true := by
  induction names generalizing p here with
  | nil => exact h
  | cons n names ih =>
    rw [List.reverse_cons, List.append_assoc] at hf ⊢
    obtain ⟨g, hg, hgl⟩ :
        ∃ g, fs.root.look (n :: here) = some g ∧ ∀ target, g ≠ .link target := by
      by_cases hnames : names = []
      · subst hnames
        exact ⟨f, hf, hl⟩
      · exact ⟨.directory, Directory.look_eq_directory_of_append_of_ne_nil (by simpa using hnames) hf,
          by simp⟩
    exact ih (Path.text_join_ne (Directory.proper_of_look hproper hg).1)
      (reaches_join hproper hp h hg hgl) hf

/-! ## What is seen of an entry -/

/-- The form of the entry that a path leads to. -/
def form? (fs : FileSystem) (p : Path) : Option Form :=
  (fs.entry? p).toOption.map Entry.form

/-- Paths that lead to entries of one form, or to none. -/
theorem entry?_of_form?_eq (h : gs.form? p = fs.form? p) :
    (∃ x y, fs.entry? p = .error x ∧ gs.entry? p = .error y) ∨
      ∃ e e', fs.entry? p = .ok e ∧ gs.entry? p = .ok e' ∧ e'.form = e.form := by
  unfold form? at h
  cases hf : fs.entry? p with
  | error x =>
    cases hg : gs.entry? p with
    | error y => exact .inl ⟨x, y, rfl, rfl⟩
    | ok e' => simp [hf, hg, Except.toOption] at h
  | ok e =>
    cases hg : gs.entry? p with
    | error y => simp [hf, hg, Except.toOption] at h
    | ok e' => exact .inr ⟨e, e', rfl, rfl, by simpa [hf, hg, Except.toOption] using h⟩

theorem has_congr (h : gs.form? p = fs.form? p) : gs.has p = fs.has p := by
  obtain ⟨x, y, hf, hg⟩ | ⟨e, e', hf, hg, -⟩ := entry?_of_form?_eq h <;>
    rw [has, hg, has, hf] <;> rfl

theorem hasDirectory_congr (h : gs.form? p = fs.form? p) :
    gs.hasDirectory p = fs.hasDirectory p := by
  obtain ⟨x, y, hf, hg⟩ | ⟨e, e', hf, hg, hform⟩ := entry?_of_form?_eq h
  · rw [hasDirectory, hg, hasDirectory, hf]
  · rw [hasDirectory, hg, hasDirectory, hf]
    cases e <;> cases e' <;> first | rfl | cases hform

/-- Texts are read from files of the same content. -/
theorem readText_congr (h : gs.form? p = fs.form? p) :
    (gs.readText p).toOption = (fs.readText p).toOption := by
  obtain ⟨x, y, hf, hg⟩ | ⟨e, e', hf, hg, hform⟩ := entry?_of_form?_eq h
  · rw [readText, read, hg, readText, read, hf]
    rfl
  · rw [readText, read, hg, readText, read, hf]
    cases e <;> cases e' <;> first | rfl | cases hform
    rfl

/-! ## File systems that differ in one file -/

/-- The file systems are the same but for what stands at one place : a file, or nothing. -/
structure DiffersOnlyAt (place : List String) (fs gs : FileSystem) : Prop where
  here : gs.here = fs.here
  elsewhere : ∀ q, q ≠ place → gs.root.look q = fs.root.look q
  file_left : ∀ f, fs.root.look place = some f → ∃ content t, f = .file content t
  file_right : ∀ f, gs.root.look place = some f → ∃ content t, f = .file content t

namespace DiffersOnlyAt

theorem symm (h : DiffersOnlyAt place fs gs) : DiffersOnlyAt place gs fs where
  here := h.here.symm
  elsewhere q hq := (h.elsewhere q hq).symm
  file_left := h.file_right
  file_right := h.file_left

/-- What is no file is the same in both. -/
theorem look_eq (h : DiffersOnlyAt place fs gs) {q : List String} {f : Form}
    (hf : fs.root.look q = some f) (hn : ∀ content t, f ≠ .file content t) :
    gs.root.look q = some f := by
  rw [h.elsewhere q, hf]
  rintro rfl
  obtain ⟨content, t, hfile⟩ := h.file_left f hf
  exact hn content t hfile

/-- Segments that lead elsewhere lead there in both. -/
theorem leads (h : DiffersOnlyAt place fs gs) {n : Nat} {segments q : List String} {r : Place}
    (hl : Leads fs.root true n here segments r) (hr : r = .found q e) (hq : q ≠ place) :
    ∃ e', Leads gs.root true n here segments (.found q e') ∧ e'.form = e.form := by
  induction hl with
  | arrived he =>
    cases hr
    have hlook : gs.root.look q = some e.form := by
      rw [h.elsewhere q hq, Directory.look, he, Option.map_some]
    obtain ⟨e', he', hform⟩ := Option.map_eq_some_iff.mp hlook
    exact ⟨e', .arrived he', hform⟩
  | skip hd hs _ ih =>
    obtain ⟨e', hl, hform⟩ := ih hr
    exact ⟨e', .skip (h.look_eq hd (by simp)) hs hl, hform⟩
  | up hd _ ih =>
    obtain ⟨e', hl, hform⟩ := ih hr
    exact ⟨e', .up (h.look_eq hd (by simp)) hl, hform⟩
  | vacant => cases hr
  | stay _ _ hl => cases hl
  | link hs hg _ _ ih =>
    obtain ⟨e', hl, hform⟩ := ih hr
    exact ⟨e', .link hs (h.look_eq hg (by simp)) (fun _ => rfl) hl, hform⟩
  | @enter _ here rest s _ f hs hg hf hrest ih =>
    subst hr
    obtain ⟨e', hl, hform⟩ := ih rfl
    refine ⟨e', .enter hs (f := f) ?_ hf hl, hform⟩
    rw [h.elsewhere, hg]
    -- Behind the file itself nothing is found.
    rintro rfl
    obtain ⟨content, t, rfl⟩ := h.file_left f hg
    cases rest with
    | nil =>
      cases hrest
      exact hq rfl
    | cons x xs => cases (hrest.directory (by simp)).symm.trans hg

/-- A change elsewhere leaves the place reached. -/
theorem reaches (h : DiffersOnlyAt place fs gs) {q : List String} (hq : q ≠ place)
    (hr : fs.reaches q p = true) : gs.reaches q p = true := by
  obtain ⟨e, he⟩ := reaches_iff.mp hr
  obtain ⟨e', he', -⟩ := h.leads he rfl hq
  exact reaches_iff.mpr ⟨e', start_congr h.here p ▸ he'⟩

/-- A path that leads to another file leads to the same in both. -/
theorem entry?_eq (h : DiffersOnlyAt place fs gs) {q : List String} {content : ByteArray}
    {t : Timestamp} (hq : q ≠ place) (hr : fs.reaches q p = true)
    (he : fs.root.at? q = some (.file content t)) : gs.entry? p = fs.entry? p := by
  obtain ⟨e, hl⟩ := reaches_iff.mp hr
  obtain rfl : e = .file content t := Option.some.inj ((hl.at?_eq rfl).symm.trans he)
  obtain ⟨e', hl', hform⟩ := h.leads hl rfl hq
  obtain rfl : e' = .file content t := Entry.form_eq_file_iff.mp hform
  unfold entry? locate
  have hstart : (if p.isAbsolute = true then [] else gs.here) = fs.start p := by rw [h.here, start]
  have hstart' : (if p.isAbsolute = true then [] else fs.here) = fs.start p := rfl
  rw [hstart, hstart', hl.follow, hl'.follow]

/-- A path that leads elsewhere leads to an entry of the same form. -/
theorem entry?_of_not_reaches (h : DiffersOnlyAt place fs gs) (hp : fs.reaches place p = false)
    (he : fs.entry? p = .ok e) : ∃ e', gs.entry? p = .ok e' ∧ e'.form = e.form := by
  obtain ⟨q, hq⟩ := entry?_eq_ok_iff.mp he
  have hne : q ≠ place := by
    rintro rfl
    simp [reaches_of_locate hq] at hp
  obtain ⟨e', hl, hform⟩ := h.leads (leads_of_locate hq) rfl hne
  exact ⟨e', entry?_eq_ok_iff.mpr ⟨q, locate_eq_ok hq (start_congr h.here p ▸ hl)⟩, hform⟩

/-- What a path leads to in neither file system is seen nowhere through it. -/
theorem form?_eq (h : DiffersOnlyAt place fs gs) (hf : fs.reaches place p = false)
    (hg : gs.reaches place p = false) : gs.form? p = fs.form? p := by
  unfold form?
  cases he : fs.entry? p with
  | ok e =>
    obtain ⟨e', he', hform⟩ := h.entry?_of_not_reaches hf he
    simp [he', hform, Except.toOption]
  | error x =>
    cases he' : gs.entry? p with
    | error y => rfl
    | ok e' =>
      obtain ⟨e, hok, -⟩ := h.symm.entry?_of_not_reaches hg he'
      cases he.symm.trans hok

end DiffersOnlyAt

/-- A file that is put in its place is all that differs. -/
theorem Puts.differsOnlyAt {content : ByteArray} {t : Timestamp} (h : Puts fs gs place content t) :
    DiffersOnlyAt place fs gs where
  here := h.here
  elsewhere _ hq := h.look_of_ne hq
  file_left f hf := by
    rcases h.old with hold | ⟨content, t, hold⟩
    · cases hold.symm.trans hf
    · exact ⟨content, t, Option.some.inj (hf.symm.trans hold)⟩
  file_right f hf := ⟨content, t, Option.some.inj (hf.symm.trans h.look_self)⟩

end FileSystem

end ArchiveLabels
