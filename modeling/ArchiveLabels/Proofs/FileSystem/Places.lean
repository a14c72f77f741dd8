import ArchiveLabels.FileSystem.Operations

/-!
# What stands where

`Directory.at?` is the entry at a place, and `Directory.look` its form : what is in a directory does
not count, so that a change at one place does not show at the places around it.
`FileSystem.look_change` : putting a file or a new directory at a place changes what is seen there
and nowhere else.
-/

namespace ArchiveLabels

/-- What an entry is, apart from what is in a directory. -/
inductive Form where
  /-- A file. -/
  | file (content : ByteArray) (modified : Timestamp)
  /-- A directory. -/
  | directory
  /-- A link. -/
  | link (target : Path)

/-- The form of an entry. -/
def Entry.form : Entry → Form
  | .file content modified => .file content modified
  | .directory _ => .directory
  | .link target => .link target

theorem Entry.form_eq_file_iff {e : Entry} {content : ByteArray} {t : Timestamp} :
    e.form = .file content t ↔ e = .file content t := by
  cases e <;> simp [form]

theorem Entry.form_eq_link_iff {e : Entry} {target : Path} :
    e.form = .link target ↔ e = .link target := by
  cases e <;> simp [form]

theorem Entry.form_eq_directory_iff {e : Entry} : e.form = .directory ↔ ∃ d, e = .directory d := by
  cases e <;> simp [form]

/-- An entry is found along a path by its two halves. -/
theorem Entry.find?_append (xs ys : List String) (e : Entry) :
    e.find? (xs ++ ys) = (e.find? xs).bind (Entry.find? ys) := by
  induction xs generalizing e with
  | nil => rfl
  | cons x xs ih =>
    cases e with
    | directory d =>
      simp only [List.cons_append, find?, Option.bind_assoc]
      exact congrArg (d.get? x).bind (funext ih)
    | _ => rfl

namespace Directory

theorem get?_put_of_ne {name other : String} (h : other ≠ name) (e : Entry) (d : Directory) :
    (d.put name e).get? other = d.get? other := by
  fun_induction put name e d with
  | case1 => simp [get?, h.symm]
  | case2 => simp [get?, h.symm]
  | case3 => simp [get?, h.symm]
  | case4 n f rest _ _ ih =>
    rw [get?, get?, ih]

/-! ## Entries at places -/

/-- The entry at a place below a directory. -/
def at? (root : Directory) (place : List String) : Option Entry :=
  Entry.find? place.reverse (.directory root)

/-- A place is found in the directory it lies in. -/
theorem at?_cons (root : Directory) (name : String) (place : List String) :
    root.at? (name :: place) = (root.at? place).bind (Entry.find? [name]) := by
  rw [at?, List.reverse_cons, Entry.find?_append]
  rfl

theorem at?_cons_of_directory {root d : Directory} {place : List String}
    (h : root.at? place = some (.directory d)) (name : String) :
    root.at? (name :: place) = d.get? name := by
  rw [at?_cons, h]
  simp [Entry.find?]

/-- What stands behind a place is what names lead to from the entry there. -/
theorem at?_append {root : Directory} {place : List String} {e : Entry}
    (h : root.at? place = some e) (names : List String) :
    root.at? (names.reverse ++ place) = e.find? names := by
  unfold at? at h ⊢
  rw [List.reverse_append, List.reverse_reverse, Entry.find?_append, h, Option.bind_some]

/-- The form of what stands at a place below a directory. -/
def look (root : Directory) (place : List String) : Option Form :=
  (root.at? place).map Entry.form

theorem look_eq_directory_iff {root : Directory} {place : List String} :
    root.look place = some .directory ↔ ∃ d, root.at? place = some (.directory d) := by
  rw [look, Option.map_eq_some_iff]
  constructor
  · rintro ⟨e, he, hf⟩
    obtain ⟨d, rfl⟩ := Entry.form_eq_directory_iff.mp hf
    exact ⟨d, he⟩
  · rintro ⟨d, hd⟩
    exact ⟨_, hd, rfl⟩

theorem look_eq_file_iff {root : Directory} {place : List String} {content : ByteArray}
    {t : Timestamp} :
    root.look place = some (.file content t) ↔ root.at? place = some (.file content t) := by
  simp [look, Entry.form_eq_file_iff]

theorem look_eq_none_iff {root : Directory} {place : List String} :
    root.look place = none ↔ root.at? place = none := by
  simp [look]

/-- What has something in it is a directory. -/
theorem look_eq_directory_of_cons {root : Directory} {name : String} {place : List String} {f : Form}
    (h : root.look (name :: place) = some f) : root.look place = some .directory := by
  rw [look, at?_cons] at h
  obtain ⟨e, he, -⟩ := Option.map_eq_some_iff.mp h
  obtain ⟨g, hg, he⟩ := Option.bind_eq_some_iff.mp he
  cases g with
  | directory d => exact look_eq_directory_iff.mpr ⟨d, hg⟩
  | _ => simp [Entry.find?] at he

/-- Whatever lies in a place, the place is a directory. -/
theorem look_eq_directory_of_append {root : Directory} {place : List String} (xs : List String)
    (h : root.look (xs ++ place) = some .directory) : root.look place = some .directory := by
  induction xs with
  | nil => exact h
  | cons x xs ih => exact ih (look_eq_directory_of_cons h)

theorem look_eq_directory_of_append_of_ne_nil {root : Directory} {place xs : List String} {f : Form}
    (hx : xs ≠ []) (h : root.look (xs ++ place) = some f) : root.look place = some .directory := by
  cases xs with
  | nil => exact (hx rfl).elim
  | cons x xs => exact look_eq_directory_of_append xs (look_eq_directory_of_cons h)

/-- What holds of a directory and of whatever is found in it by name holds everywhere below. -/
theorem forall_at? {P : Entry → Prop} {root : Directory} {place : List String} {e : Entry}
    (hget : ∀ {d : Directory} {name : String} {e : Entry}, P (.directory d) → d.get? name = some e → P e)
    (hroot : P (.directory root)) (h : root.at? place = some e) : P e := by
  induction place generalizing e with
  | nil =>
    obtain rfl := Option.some.inj h
    exact hroot
  | cons name place ih =>
    have hlook : root.look (name :: place) = some e.form := by rw [look, h, Option.map_some]
    obtain ⟨d, hd⟩ := look_eq_directory_iff.mp (look_eq_directory_of_cons hlook)
    rw [at?_cons_of_directory hd] at h
    exact hget (ih hd) h

end Directory

/-! ## Changes at places -/

namespace Entry

/-- An entry with nothing in it. -/
def IsBare (e : Entry) : Prop :=
  ∀ name names, e.find? (name :: names) = none

theorem isBare_file (content : ByteArray) (t : Timestamp) : (file content t).IsBare := fun _ _ => rfl

theorem isBare_empty : (directory .empty).IsBare := fun _ _ => rfl

/-- What is seen of an entry in which something with nothing in it is put in the place of something
with nothing in it. -/
theorem form_find?_change {new : Entry} (hn : new.IsBare) {names : List String} {name : String}
    {d e : Entry} {f : Directory} (hd : e.find? names = some (.directory f))
    (hold : ∀ old, f.get? name = some old → old.IsBare) (hc : e.change new (names ++ [name]) = d)
    (qs : List String) :
    (d.find? qs).map form =
      if qs = names ++ [name] then some new.form else (e.find? qs).map form := by
  subst hc
  induction names generalizing e qs with
  | nil =>
    obtain rfl : e = .directory f := Option.some.inj hd
    rw [List.nil_append, change]
    cases qs with
    | nil => simp [find?, form]
    | cons q rest =>
      by_cases hq : q = name
      · subst hq
        rw [find?, Directory.get?_put_self, Option.bind_some]
        cases rest with
        | nil => simp [find?]
        | cons r rest =>
          rw [hn, find?]
          cases hg : f.get? q with
          | none => simp
          | some old => simp [hold old hg r rest]
      · rw [find?, Directory.get?_put_of_ne hq, find?, if_neg (by simp [hq])]
  | cons n names ih =>
    cases e with
    | directory g =>
      obtain ⟨e, hg, he⟩ := Option.bind_eq_some_iff.mp hd
      obtain ⟨m, ms, hms⟩ : ∃ m ms, names ++ [name] = m :: ms :=
        List.exists_cons_of_ne_nil (by simp)
      rw [List.cons_append, hms, change, hg, ← hms]
      cases qs with
      | nil => simp [find?, form]
      | cons q rest =>
        by_cases hq : q = n
        · subst hq
          rw [find?, Directory.get?_put_self, Option.bind_some, ih he, find?, hg, Option.bind_some]
          simp
        · rw [find?, Directory.get?_put_of_ne hq, find?, if_neg (by simp [hq])]
    | _ => simp [find?] at hd

end Entry

/-! ## The order of entries -/

mutual

/-- The entries of directories stand in the order of their names. -/
def Entry.Ordered : Entry → Prop
  | .directory d => d.Ordered
  | _ => True

/-- The entries stand in the order of their names, and so do those of the directories among them. -/
def Directory.Ordered : Directory → Prop
  | .empty => True
  | .entry name e rest =>
    e.Ordered ∧ (∀ other f, rest.get? other = some f → name < other) ∧ rest.Ordered

end

namespace Directory

theorem ordered_of_get? {name : String} {e : Entry} {d : Directory} (ho : d.Ordered)
    (h : d.get? name = some e) : e.Ordered := by
  fun_induction get? name d with
  | case1 => cases h
  | case2 =>
    obtain rfl := Option.some.inj h
    exact ho.1
  | case3 n f rest _ ih => exact ih ho.2.2 h

theorem ordered_of_at? {root : Directory} {place : List String} {e : Entry} (ho : root.Ordered)
    (h : root.at? place = some e) : e.Ordered :=
  forall_at? (P := Entry.Ordered) ordered_of_get? ho h

/-- An entry put keeps a directory in order. -/
theorem ordered_put {name : String} {e : Entry} {d : Directory} (he : e.Ordered)
    (hd : d.Ordered) : (d.put name e).Ordered := by
  fun_induction put name e d with
  | case1 => exact ⟨he, fun _ _ h => (by simp [get?] at h), trivial⟩
  | case2 n f rest hlt =>
    refine ⟨he, fun other g h => ?_, hd⟩
    rw [get?] at h
    split at h
    · rename_i hn
      exact hn ▸ hlt
    · exact String.lt_trans hlt (hd.2.1 other g h)
  | case3 f rest => exact ⟨he, hd.2⟩
  | case4 n f rest hlt hn ih =>
    refine ⟨hd.1, fun other g h => ?_, ih hd.2.2⟩
    by_cases ho : other = name
    · subst ho
      rw [← String.not_le]
      exact fun hle => hn (String.le_antisymm (String.not_lt.mp hlt) hle)
    · rw [get?_put_of_ne ho] at h
      exact hd.2.1 other g h

end Directory

theorem Entry.ordered_file (content : ByteArray) (t : Timestamp) : (file content t).Ordered :=
  trivial

theorem Entry.ordered_empty : (directory .empty).Ordered := trivial

/-- A change anywhere keeps every directory in order. -/
theorem Entry.ordered_change {new e : Entry} (hn : new.Ordered) (he : e.Ordered)
    (names : List String) : (e.change (some new) names).Ordered := by
  induction names generalizing e with
  | nil => exact hn
  | cons n names ih =>
    cases e with
    | directory d =>
      cases names with
      | nil => exact Directory.ordered_put hn he
      | cons m names =>
        rw [change]
        cases hg : d.get? n with
        | none => exact he
        | some f => exact Directory.ordered_put (ih (Directory.ordered_of_get? he hg)) he
    | _ => cases names <;> exact he

namespace FileSystem

variable {fs : FileSystem} {name : String} {place : List String}

/-- A file or a new directory at a place is seen there, and everything else as before. -/
theorem look_change {new : Entry} (hn : new.IsBare) (hd : fs.root.look place = some .directory)
    (hold : ∀ old, fs.root.at? (name :: place) = some old → old.IsBare) (q : List String) :
    (fs.change (name :: place) (some new)).root.look q =
      if q = name :: place then some new.form else fs.root.look q := by
  obtain ⟨f, hf⟩ := Directory.look_eq_directory_iff.mp hd
  have hdir (new : Option Entry) (names : List String) :
      ∃ root, Entry.change new (names ++ [name]) (.directory fs.root) = .directory root := by
    cases names with
    | nil => cases new <;> exact ⟨_, rfl⟩
    | cons n names =>
      obtain ⟨m, ms, hms⟩ : ∃ m ms, names ++ [name] = m :: ms :=
        List.exists_cons_of_ne_nil (by simp)
      rw [List.cons_append, hms, Entry.change]
      split <;> exact ⟨_, rfl⟩
  obtain ⟨root, hroot⟩ := hdir (some new) place.reverse
  have := Entry.form_find?_change hn hf
    (fun old ho => hold old ((Directory.at?_cons_of_directory hf name).trans ho)) hroot q.reverse
  rw [change, List.reverse_cons, hroot]
  simp only [Directory.look, Directory.at?]
  simp only [this, ← List.reverse_cons, List.reverse_inj]

theorem ordered_change {new : Entry} (hn : new.Ordered) (place : List String)
    (h : fs.root.Ordered) : (fs.change place (some new)).root.Ordered := by
  have ho : Entry.Ordered (.directory fs.root) := h
  have := Entry.ordered_change hn ho place.reverse
  unfold change
  split
  · rename_i root hr
    rwa [hr] at this
  · exact h

theorem here_change (fs : FileSystem) (place : List String) (new : Option Entry) :
    (fs.change place new).here = fs.here := by
  unfold change
  split <;> rfl

theorem room_change (fs : FileSystem) (place : List String) (new : Option Entry) :
    (fs.change place new).room = fs.room := by
  unfold change
  split <;> rfl

end FileSystem

end ArchiveLabels
