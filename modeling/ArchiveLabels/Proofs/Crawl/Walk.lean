import ArchiveLabels.Crawl.Walk
import ArchiveLabels.Proofs.FileSystem.Entries
import ArchiveLabels.Proofs.FileSystem.Reaches

/-!
# What candidates are

Below a root a crawl finds files only, and of these only such as its filters take : each candidate
has a file name whose extension stands for the dialect looked for
(`FileSystem.ofPath?_of_mem_candidates`), and its path reaches the file
(`FileSystem.of_mem_candidates`).

`FileSystem.filter_candidates_eq` : file systems that differ in one file have the same candidates in
the same order, but for those whose paths reach this file.
-/

namespace ArchiveLabels

open Label

variable {f : Filters} {d : Dialect} {p q : Path}

namespace Filters

/-- The candidates in a directory are those at its entries, in their order. -/
theorem candidatesIn_eq_flatMap (f : Filters) (d : Dialect) (p : Path) :
    ∀ entries : Directory, f.candidatesIn d p entries =
      entries.toList.flatMap fun x => f.candidatesAt d (p.join ⟨x.1⟩) x.2
  | .empty => by simp [candidatesIn, Directory.toList]
  | .entry name e rest => by
    rw [candidatesIn, Directory.toList, List.flatMap_cons, candidatesIn_eq_flatMap f d p rest]

theorem mem_candidatesAt_directory {root : Path} {entries : Directory}
    (h : p ∈ f.candidatesAt d root (.directory entries)) : p ∈ f.candidatesIn d root entries := by
  rw [candidatesAt] at h
  split at h
  · exact h
  · cases h

/-- A root that is a file is its own candidate, if it is accepted. -/
theorem mem_candidatesAt_file {root : Path} {content : ByteArray} {t : Timestamp} :
    p ∈ f.candidatesAt d root (.file content t) ↔ p = root ∧ f.acceptsFile root d = true := by
  rw [candidatesAt]
  split <;> simp [*]

/-! ## Members -/

/-- A candidate is a file that is come to from where the walk starts, and that the filters take. -/
theorem of_mem_candidatesIn (entries : Directory) : ∀ {root : Path},
    p ∈ f.candidatesIn d root entries → f.acceptsFile p d = true ∧ (entries.Ordered →
      ∃ names content t, Entry.find? names (.directory entries) = some (.file content t) ∧
        p = root.descend names) := by
  induction entries using Directory.forall_of_subdirectories with
  | h entries ih =>
    intro root h
    rw [candidatesIn_eq_flatMap] at h
    obtain ⟨⟨n, e⟩, hx, h⟩ := List.mem_flatMap.mp h
    cases e with
    | file content t =>
      obtain ⟨rfl, ha⟩ := mem_candidatesAt_file.mp h
      refine ⟨ha, fun ho => ⟨[n], content, t, ?_, rfl⟩⟩
      rw [Entry.find?, (Directory.mem_toList_iff ho).mp hx]
      rfl
    | link target => simp [candidatesAt] at h
    | directory sub =>
      obtain ⟨ha, hfind⟩ := ih n sub hx (mem_candidatesAt_directory h)
      refine ⟨ha, fun ho => ?_⟩
      have hg := (Directory.mem_toList_iff ho).mp hx
      obtain ⟨names, content, t, hnames, rfl⟩ := hfind (Directory.ordered_of_get? ho hg)
      exact ⟨n :: names, content, t, by rw [Entry.find?, hg]; exact hnames, rfl⟩

end Filters

/-! ## Trees that differ in files -/

/-- The entries are the same but for what some lists of names lead to : files, or nothing. -/
structure Entry.DiffersAt (T : List String → Prop) (e e' : Entry) : Prop where
  elsewhere : ∀ names, ¬T names → (e'.find? names).map form = (e.find? names).map form
  file_left : ∀ names g, T names → e.find? names = some g → ∃ content t, g = .file content t
  file_right : ∀ names g, T names → e'.find? names = some g → ∃ content t, g = .file content t

namespace Entry.DiffersAt

variable {T : List String → Prop} {entries entries' : Directory} {n : String} {e e' : Entry}

theorem symm (h : DiffersAt T e e') : DiffersAt T e' e where
  elsewhere names hn := (h.elsewhere names hn).symm
  file_left := h.file_right
  file_right := h.file_left

/-- Entries of one name differ where their directories do. -/
theorem get? (h : DiffersAt T (.directory entries) (.directory entries'))
    (he : entries.get? n = some e) (he' : entries'.get? n = some e') :
    DiffersAt (fun names => T (n :: names)) e e' where
  elsewhere names hn := by simpa [find?, he, he'] using h.elsewhere (n :: names) hn
  file_left names g hn hg := h.file_left (n :: names) g hn (by simpa [find?, he] using hg)
  file_right names g hn hg := h.file_right (n :: names) g hn (by simpa [find?, he'] using hg)

/-- What is missing in one of them is a file in the other. -/
theorem of_missing (h : DiffersAt T (.directory entries) (.directory entries'))
    (he : entries.get? n = some e) (he' : entries'.get? n = none) :
    T [n] ∧ ∃ content t, e = .file content t := by
  have hT : T [n] := by
    by_contra hT
    simpa [find?, he, he'] using h.elsewhere [n] hT
  exact ⟨hT, h.file_left [n] e hT (by simp [find?, he])⟩

/-- Two files, the same, or two directories. -/
theorem cases (h : DiffersAt T e e') :
    (T [] ∧ (∃ content t, e = .file content t) ∧ ∃ content t, e' = .file content t) ∨ e' = e ∨
      ∃ entries entries', e = .directory entries ∧ e' = .directory entries' := by
  by_cases hT : T []
  · exact .inl ⟨hT, h.file_left [] e hT rfl, h.file_right [] e' hT rfl⟩
  · refine .inr ?_
    have hform : e'.form = e.form := by simpa [find?] using h.elsewhere [] hT
    cases e with
    | file content t => exact .inl (form_eq_file_iff.mp hform)
    | link target => exact .inl (form_eq_link_iff.mp hform)
    | directory entries =>
      obtain ⟨entries', rfl⟩ := form_eq_directory_iff.mp hform
      exact .inr ⟨entries, entries', rfl, rfl⟩

end Entry.DiffersAt

namespace Filters

variable {keep : Path → Bool} {root : Path} {e e' : Entry} {T : List String → Prop}

theorem filter_candidatesAt_of_file (f : Filters) (d : Dialect) (hk : keep root = false)
    (content : ByteArray) (t : Timestamp) :
    (f.candidatesAt d root (.file content t)).filter keep = [] := by
  rw [candidatesAt]
  split <;> simp [hk]

/-- The candidates of entries that differ in files are the same but for these files, if those of
directories are. -/
theorem filter_candidatesAt_eq (h : e.DiffersAt T e') (hk : T [] → keep root = false)
    (hin : ∀ entries entries', e = .directory entries → e' = .directory entries' →
      (f.candidatesIn d root entries').filter keep = (f.candidatesIn d root entries).filter keep) :
    (f.candidatesAt d root e').filter keep = (f.candidatesAt d root e).filter keep := by
  rcases h.cases with ⟨hT, ⟨content, t, rfl⟩, content', t', rfl⟩ | rfl | ⟨entries, entries', rfl, rfl⟩
  · rw [filter_candidatesAt_of_file f d (hk hT), filter_candidatesAt_of_file f d (hk hT)]
  · rfl
  · rw [candidatesAt, candidatesAt]
    split
    · exact hin entries entries' rfl rfl
    · rfl

/-- The candidates below directories that differ in files are the same but for these files. -/
theorem filter_candidatesIn_eq (entries : Directory) :
    ∀ {entries' : Directory} {root : Path} {T : List String → Prop}, entries.Ordered →
      entries'.Ordered → Entry.DiffersAt T (.directory entries) (.directory entries') →
      (∀ names, T names → keep (root.descend names) = false) →
      (f.candidatesIn d root entries').filter keep =
        (f.candidatesIn d root entries).filter keep := by
  induction entries using Directory.forall_of_subdirectories with
  | h entries ih =>
    intro entries' root T ho ho' h hk
    rw [candidatesIn_eq_flatMap, candidatesIn_eq_flatMap, List.filter_flatMap, List.filter_flatMap]
    refine Directory.flatMap_toList_eq
      (h := fun n e => (f.candidatesAt d (root.join ⟨n⟩) e).filter keep) ho' ho fun n => ?_
    cases he : entries.get? n with
    | none =>
      cases he' : entries'.get? n with
      | none => rfl
      | some e' =>
        obtain ⟨hT, content, t, rfl⟩ := h.symm.of_missing he' he
        exact filter_candidatesAt_of_file f d (hk [n] hT) content t
    | some e =>
      cases he' : entries'.get? n with
      | none =>
        obtain ⟨hT, content, t, rfl⟩ := h.of_missing he he'
        exact (filter_candidatesAt_of_file f d (hk [n] hT) content t).symm
      | some e' =>
        refine filter_candidatesAt_eq (h.get? he he') (hk [n]) ?_
        rintro sub sub' rfl rfl
        exact ih n sub ((Directory.mem_toList_iff ho).mpr he) (Directory.ordered_of_get? ho he)
          (Directory.ordered_of_get? ho' he') (h.get? he he') fun names => hk (n :: names)

end Filters

namespace FileSystem

variable {fs gs : FileSystem} {root : Path} {ps qs : List Path} {place here : List String}
  {e : Entry}

/-! ## Candidates below a root -/

/-- Candidates are listed at the place the root leads to. -/
theorem of_candidates (h : fs.candidates f d root = .ok ps) :
    ∃ here e, fs.locate true root = .ok (.found here e) ∧ (root.same standardInput ∧ ps = [] ∨
      ¬root.same standardInput ∧ ps = match e with
        | .directory entries => f.candidatesIn d root entries
        | e => f.candidatesAt d root e) := by
  unfold candidates at h
  split at h
  · cases h
  · rename_i e he
    obtain ⟨here, hl⟩ := entry?_eq_ok_iff.mp he
    refine ⟨here, e, hl, ?_⟩
    split at h
    · rename_i hroot
      exact .inl ⟨hroot, (Except.ok.inj h).symm⟩
    · rename_i hroot
      refine .inr ⟨hroot, ?_⟩
      cases e <;> exact (Except.ok.inj h).symm

/-- A candidate is taken by the filters, and its path reaches a file. -/
theorem of_mem_candidates (h : fs.candidates f d root = .ok ps) (hp : p ∈ ps) :
    f.acceptsFile p d = true ∧ (fs.root.Ordered → fs.root.Proper →
      ∃ place content t, fs.reaches place p = true ∧
        fs.root.at? place = some (.file content t)) := by
  obtain ⟨here, e, hl, ⟨-, rfl⟩ | ⟨-, rfl⟩⟩ := of_candidates h
  · cases hp
  cases e with
  | file content t =>
    obtain ⟨rfl, ha⟩ := Filters.mem_candidatesAt_file.mp hp
    exact ⟨ha, fun _ _ => ⟨here, content, t, reaches_of_locate hl, at?_of_locate hl⟩⟩
  | link target => simp [Filters.candidatesAt] at hp
  | directory entries =>
    obtain ⟨ha, hfind⟩ := Filters.of_mem_candidatesIn entries hp
    refine ⟨ha, fun ho hproper => ?_⟩
    have hat := at?_of_locate hl
    obtain ⟨names, content, t, hnames, rfl⟩ := hfind (Directory.ordered_of_at? ho hat)
    rw [← Directory.at?_append hat] at hnames
    exact ⟨_, content, t, reaches_descend hproper (text_ne_of_locate hl) (reaches_of_locate hl)
      (Directory.look_eq_file_iff.mpr hnames) (by simp), hnames⟩

/-- The extension of a candidate stands for the dialect looked for. -/
theorem ofPath?_of_mem_candidates (h : fs.candidates f d root = .ok ps) (hp : p ∈ ps) :
    Dialect.ofPath? p = some d := by
  have ha := (of_mem_candidates h hp).1
  unfold Filters.acceptsFile at ha
  rw [Bool.and_eq_true, beq_iff_eq] at ha
  exact ha.1

/-! ## Candidates in two file systems -/

/-- The path reaches the place in neither of two file systems. -/
def avoids (fs gs : FileSystem) (place : List String) (p : Path) : Bool :=
  !fs.reaches place p && !gs.reaches place p

/-- The names lead from one place to another where there is something in one of two file systems. -/
def LeadOn (fs gs : FileSystem) (here place names : List String) : Prop :=
  names.reverse ++ here = place ∧ (fs.root.look place ≠ none ∨ gs.root.look place ≠ none)

namespace DiffersOnlyAt

variable {e' : Entry} (h : DiffersOnlyAt place fs gs)

include h

/-- What stands at one place differs in what names lead on to from there. -/
theorem differsAt (he : fs.root.at? here = some e) (he' : gs.root.at? here = some e') :
    e.DiffersAt (fs.LeadOn gs here place) e' where
  elsewhere names hn := by
    rw [← Directory.at?_append he, ← Directory.at?_append he']
    change gs.root.look _ = fs.root.look _
    by_cases heq : names.reverse ++ here = place
    · -- Neither of them has the file.
      have hnone : fs.root.look place = none ∧ gs.root.look place = none := by
        simpa [LeadOn, heq] using hn
      rw [heq, hnone.1, hnone.2]
    · exact h.elsewhere _ heq
  file_left names g hn hg := by
    rw [← Directory.at?_append he, hn.1] at hg
    obtain ⟨content, t, hfile⟩ := h.file_left g.form (by rw [Directory.look, hg, Option.map_some])
    exact ⟨content, t, Entry.form_eq_file_iff.mp hfile⟩
  file_right names g hn hg := by
    rw [← Directory.at?_append he', hn.1] at hg
    obtain ⟨content, t, hfile⟩ := h.file_right g.form (by rw [Directory.look, hg, Option.map_some])
    exact ⟨content, t, Entry.form_eq_file_iff.mp hfile⟩

/-- A path that is led on to the file does not avoid it. -/
theorem avoids_descend (names : List String) (hproper : fs.root.Proper) (hproper' : gs.root.Proper)
    (hroot : root.text ≠ "") (hr : fs.reaches here root = true) (hr' : gs.reaches here root = true)
    (hn : fs.LeadOn gs here place names) : fs.avoids gs place (root.descend names) = false := by
  obtain ⟨rfl, hsome | hsome⟩ := hn
  · obtain ⟨g, hg⟩ := Option.ne_none_iff_exists'.mp hsome
    obtain ⟨content, t, rfl⟩ := h.file_left g hg
    simp [avoids, reaches_descend hproper hroot hr hg (by simp)]
  · obtain ⟨g, hg⟩ := Option.ne_none_iff_exists'.mp hsome
    obtain ⟨content, t, rfl⟩ := h.file_right g hg
    simp [avoids, reaches_descend hproper' hroot hr' hg (by simp)]

/-- A root leads to one place in both. -/
theorem locate_eq {here' : List String} (hl : fs.locate true root = .ok (.found here e))
    (hl' : gs.locate true root = .ok (.found here' e')) :
    here' = here := by
  by_cases hplace : here = place
  · by_contra hne
    obtain ⟨e₀, hl₀, -⟩ := h.symm.leads (leads_of_locate hl') rfl (hplace ▸ hne)
    rw [start_congr h.here] at hl₀
    cases hl₀.follow.symm.trans (leads_of_locate hl).follow
    exact hne rfl
  · obtain ⟨e₀, hl₀, -⟩ := h.leads (leads_of_locate hl) rfl hplace
    rw [← start_congr h.here] at hl₀
    cases hl₀.follow.symm.trans (leads_of_locate hl').follow
    rfl

end DiffersOnlyAt

/-- File systems that differ in one file have the same candidates below a root, but for those whose
paths reach this file. -/
theorem filter_candidates_eq (h : DiffersOnlyAt place fs gs) (ho : fs.root.Ordered)
    (ho' : gs.root.Ordered) (hproper : fs.root.Proper) (hproper' : gs.root.Proper)
    (hp : fs.candidates f d root = .ok ps) (hq : gs.candidates f d root = .ok qs) :
    qs.filter (fs.avoids gs place) = ps.filter (fs.avoids gs place) := by
  obtain ⟨here, e, hl, hps⟩ := of_candidates hp
  obtain ⟨here', e', hl', hqs⟩ := of_candidates hq
  obtain rfl := h.locate_eq hl hl'
  have hr := reaches_of_locate hl
  have hr' := reaches_of_locate hl'
  have hroot := text_ne_of_locate hl
  rcases hps with ⟨hinput, rfl⟩ | ⟨hinput, rfl⟩
  · rcases hqs with ⟨-, rfl⟩ | ⟨hne, -⟩
    · rfl
    · exact (hne hinput).elim
  rcases hqs with ⟨hin, -⟩ | ⟨-, rfl⟩
  · exact (hinput hin).elim
  have hdiffers := h.differsAt (at?_of_locate hl) (at?_of_locate hl')
  have hkeep := fun names => h.avoids_descend names hproper hproper' hroot hr hr'
  rcases hdiffers.cases with ⟨hT, ⟨content, t, rfl⟩, content', t', rfl⟩ | rfl |
    ⟨entries, entries', rfl, rfl⟩
  · have hk := hkeep [] hT
    exact (Filters.filter_candidatesAt_of_file f d hk content' t').trans
      (Filters.filter_candidatesAt_of_file f d hk content t).symm
  · rfl
  · exact Filters.filter_candidatesIn_eq entries (Directory.ordered_of_at? ho (at?_of_locate hl))
      (Directory.ordered_of_at? ho' (at?_of_locate hl')) hdiffers hkeep

end FileSystem

/-- A path whose extension stands for a dialect has a file name. -/
theorem Label.Dialect.exists_fileName (h : ofPath? p = some d) : ∃ n, p.fileName? = some n := by
  unfold ofPath? Path.extension? at h
  cases hn : p.fileName? with
  | none => simp [hn] at h
  | some n => exact ⟨n, rfl⟩

end ArchiveLabels
