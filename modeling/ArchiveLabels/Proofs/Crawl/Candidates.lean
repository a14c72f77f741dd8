import ArchiveLabels.Proofs.Crawl.Walk
import ArchiveLabels.Proofs.Label.Growth
import ArchiveLabels.Proofs.Text.Utf8

/-!
# Which candidates there are

The walk below a root decides entry by entry whether to go on. What comes of it is told here of whole
ways from the root : `Filters.Takes` says of a list of names that it leads to a file that is to be
taken, by way of directories that are to be entered. The walk lists the paths of just these, in the
order of their bytes (`Filters.Lists`, `FileSystem.candidates_directory`). The one root below which
it finds nothing is `-`, which stands for standard input (`FileSystem.candidates_dash`).
-/

namespace ArchiveLabels

open Label

variable {f : Filters} {d : Dialect} {p root : Path} {entries : Directory} {n : String}
  {names : List String}

/-! ## Paths with names behind them -/

namespace Path

/-- The components of a path that is not empty and does not start at the root. -/
theorem components_eq_of_not_isAbsolute (hp : p.text ≠ "") (h : p.isAbsolute = false) :
    p.components = (if p.segments.head? = some "." then [.here] else []) ++ p.inner := by
  obtain ⟨first, rest, hs, hf⟩ := segments_of_not_isAbsolute hp h
  by_cases hd : first = "."
  · subst hd
    simp [components, inner, hs, innerComponent?]
  · cases hc : innerComponent? first <;> simp [components, inner, hs, hf, hd, hc]

theorem inner_join (hp : p.text ≠ "") (hn : (Component.name n).Inner) :
    (p.join ⟨n⟩).inner = p.inner ++ [.name n] := by
  obtain ⟨front, hfront, hjoin, -⟩ := segments_join hp hn
  have hname : innerComponent? n = some (.name n) := hn.innerComponent?_text
  have hinner : p.inner = front.filterMap innerComponent? := by
    rcases hfront with hfront | hfront <;> simp [inner, hfront, innerComponent?]
  rw [hinner, inner, hjoin, List.filterMap_append]
  simp [hname]

/-- A name behind a path is one component more. -/
theorem components_join (hp : p.text ≠ "") (hn : (Component.name n).Inner) :
    (p.join ⟨n⟩).components = p.components ++ [.name n] := by
  obtain ⟨front, hfront, hjoin, habsolute⟩ := segments_join hp hn
  cases ha : p.isAbsolute with
  | true =>
    rw [components_of_isAbsolute (habsolute.trans ha), components_of_isAbsolute ha,
      inner_join hp hn, List.cons_append]
  | false =>
    obtain ⟨first, rest, hs, hf⟩ := segments_of_not_isAbsolute hp ha
    have hhead : (p.join ⟨n⟩).segments.head? = p.segments.head? := by
      cases front with
      | nil => rcases hfront with hfront | hfront <;> simp_all
      | cons m front => rcases hfront with hfront | hfront <;> simp [hjoin, hfront]
    rw [components_eq_of_not_isAbsolute (text_join_ne hn) (habsolute.trans ha), hhead,
      inner_join hp hn, components_eq_of_not_isAbsolute hp ha, List.append_assoc]

/-- A path descended along names has the names behind its own components. -/
theorem components_descend (hp : p.text ≠ "") (hn : ∀ n ∈ names, (Component.name n).Inner) :
    (p.descend names).components = p.components ++ names.map .name := by
  induction names generalizing p with
  | nil => simp [descend]
  | cons n names ih =>
    have hn' : (Component.name n).Inner := hn n List.mem_cons_self
    have hjoin := ih (text_join_ne (p := p) hn') fun m hm => hn m (List.mem_cons_of_mem n hm)
    rw [components_join hp hn'] at hjoin
    rw [List.map_cons, List.append_cons]
    exact hjoin

/-- A path by the bytes of its components. -/
def bytes (p : Path) : List (List UInt8) :=
  p.components.map fun c => Text.Utf8.bytes c.text

/-- The names behind a path say which of two comes first. -/
theorem bytes_descend_lt {names' : List String} (hp : p.text ≠ "")
    (hn : ∀ n ∈ names, (Component.name n).Inner) (hn' : ∀ n ∈ names', (Component.name n).Inner)
    (h : names < names') : (p.descend names).bytes < (p.descend names').bytes := by
  rw [bytes, bytes, components_descend hp hn, components_descend hp hn', List.map_append,
    List.map_append, List.map_map, List.map_map]
  refine List.append_left_lt ?_
  have hlex : List.Lex (· < ·) names names' := h
  clear h hn hn'
  induction hlex with
  | nil => exact List.nil_lt_cons _ _
  | rel h => exact .rel (Text.Utf8.bytes_lt h)
  | cons _ ih => exact .cons ih

end Path

/-! ## Files to be taken -/

theorem Directory.mem_toList_of_get? {entries : Directory} {e : Entry}
    (h : entries.get? n = some e) : (n, e) ∈ entries.toList := by
  fun_induction get? n entries with
  | case1 => cases h
  | case2 =>
    cases h
    exact List.mem_cons_self
  | case3 m f rest _ ih => exact List.mem_cons_of_mem _ (ih h)

/-- A name that comes before the names of all entries comes before those that something is found
under. -/
theorem Directory.lt_of_toList {entries : Directory} (h : ∀ x ∈ entries.toList, n < x.1) :
    ∀ other e, entries.get? other = some e → n < other :=
  fun _ _ he => h _ (mem_toList_of_get? he)

theorem Entry.inner_of_find? {e e' : Entry} (hp : e.Proper) (h : e.find? names = some e') :
    ∀ n ∈ names, (Component.name n).Inner := by
  induction names generalizing e with
  | nil => exact nofun
  | cons m names ih =>
    cases e with
    | file content t => cases h
    | link target => cases h
    | directory sub =>
      obtain ⟨e₁, hget, hfind⟩ := Option.bind_eq_some_iff.mp h
      obtain ⟨hm, he₁⟩ := Directory.proper_of_get? hp hget
      exact List.forall_mem_cons.mpr ⟨hm.1, ih he₁ hfind⟩

/-- Entries are listed by ascending name. -/
theorem Directory.pairwise_toList {entries : Directory} (h : entries.Ordered) :
    entries.toList.Pairwise fun x y => x.1 < y.1 := by
  cases entries with
  | empty => simp [toList]
  | entry name e rest =>
    obtain ⟨-, hname, hrest⟩ := h
    rw [toList, List.pairwise_cons]
    exact ⟨fun x hx => hname x.1 x.2 ((mem_toList_iff hrest).mp hx), pairwise_toList hrest⟩

namespace Filters

/-- The extension of a file of the name `n` stands for the dialect, and the name is to be taken. -/
def TakesName (f : Filters) (d : Dialect) (n : String) : Prop :=
  (Path.splitExtension n).2.bind Dialect.ofExtension? = some d ∧ f.files.accepts n = true

instance : Decidable (f.TakesName d n) := inferInstanceAs (Decidable (_ ∧ _))

/-- The names lead from a directory to a file that is to be taken, by way of directories that are to
be entered. -/
structure Takes (f : Filters) (d : Dialect) (entries : Directory) (names : List String) : Prop where
  file : ∃ content t, Entry.find? names (.directory entries) = some (.file content t)
  name : ∃ n, names.getLast? = some n ∧ f.TakesName d n
  ancestors : ∀ n ∈ names.dropLast, f.directories.accepts n = true

mutual

/-- The names that lead to the candidates at an entry of the name `n`. -/
def namesAt (f : Filters) (d : Dialect) (n : String) : Entry → List (List String)
  | .file _ _ => if f.TakesName d n then [[n]] else []
  | .directory entries =>
    if f.directories.accepts n then (namesIn f d entries).map (n :: ·) else []
  | .link _ => []

/-- The names that lead to the candidates in a directory. -/
def namesIn (f : Filters) (d : Dialect) : Directory → List (List String)
  | .empty => []
  | .entry n e rest => namesAt f d n e ++ namesIn f d rest

end

theorem namesIn_eq_flatMap (f : Filters) (d : Dialect) (entries : Directory) :
    f.namesIn d entries = entries.toList.flatMap fun x => f.namesAt d x.1 x.2 := by
  cases entries with
  | empty => simp [namesIn, Directory.toList]
  | entry n e rest =>
    rw [namesIn, Directory.toList, List.flatMap_cons, namesIn_eq_flatMap f d rest]

/-! ### Paths of candidates -/

theorem fileName?_join (hp : p.text ≠ "") (hn : (Component.name n).Inner) :
    (p.join ⟨n⟩).fileName? = some n := by
  simp [Path.fileName?, Path.components_join hp hn]

/-- A file is taken by its name alone. -/
theorem acceptsFile_join (hp : p.text ≠ "") (hn : (Component.name n).Inner) :
    f.acceptsFile (p.join ⟨n⟩) d = true ↔ f.TakesName d n := by
  simp [acceptsFile, Dialect.ofPath?, Path.extension?, fileName?_join hp hn, TakesName]

theorem acceptsDirectory_join (hp : p.text ≠ "") (hn : (Component.name n).Inner) :
    f.acceptsDirectory (p.join ⟨n⟩) = f.directories.accepts n := by
  rw [acceptsDirectory, fileName?_join hp hn, Option.getD_some]

mutual

/-- The paths of candidates are the names of candidates behind the path of their entry. -/
theorem candidatesAt_eq_map (f : Filters) (d : Dialect) :
    ∀ (e : Entry) {p : Path} {n : String}, p.text ≠ "" → (Component.name n).Inner → e.Proper →
      f.candidatesAt d (p.join ⟨n⟩) e = (f.namesAt d n e).map p.descend
  | .file _ _, p, n, hp, hn, _ => by
    rw [candidatesAt, namesAt]
    by_cases h : f.TakesName d n
    · rw [if_pos ((acceptsFile_join hp hn).mpr h), if_pos h]
      rfl
    · rw [if_neg (mt (acceptsFile_join hp hn).mp h), if_neg h]
      rfl
  | .directory entries, p, n, hp, hn, he => by
    rw [candidatesAt, namesAt, acceptsDirectory_join hp hn,
      candidatesIn_eq_map f d entries (Path.text_join_ne hn) he]
    split
    · rw [List.map_map]
      rfl
    · rfl
  | .link _, _, _, _, _, _ => by simp [candidatesAt, namesAt]

/-- The candidates below a path are at the paths that the names lead to from there. -/
theorem candidatesIn_eq_map (f : Filters) (d : Dialect) :
    ∀ (entries : Directory) {p : Path}, p.text ≠ "" → entries.Proper →
      f.candidatesIn d p entries = (f.namesIn d entries).map p.descend
  | .empty, _, _, _ => by simp [candidatesIn, namesIn]
  | .entry n e rest, p, hp, ⟨hn, he, hrest⟩ => by
    rw [candidatesIn, namesIn, List.map_append, candidatesAt_eq_map f d e hp hn.1 he,
      candidatesIn_eq_map f d rest hp hrest]

end

/-! ### Names of candidates -/

theorem not_takes_nil : ¬f.Takes d entries [] := by
  rintro ⟨-, ⟨n, hn, -⟩, -⟩
  cases hn

theorem takes_singleton_iff : f.Takes d entries [n] ↔
    f.TakesName d n ∧ ∃ content t, entries.get? n = some (.file content t) := by
  constructor
  · rintro ⟨⟨content, t, hfind⟩, ⟨m, hm, hname⟩, -⟩
    obtain rfl : n = m := Option.some.inj hm
    obtain ⟨e, he, hfile⟩ := Option.bind_eq_some_iff.mp hfind
    obtain rfl := Option.some.inj hfile
    exact ⟨hname, content, t, he⟩
  · rintro ⟨hname, content, t, he⟩
    exact ⟨⟨content, t, by rw [Entry.find?, he]; rfl⟩, ⟨n, rfl, hname⟩, nofun⟩

/-- A name further down is taken within a directory that is accepted. -/
theorem takes_cons_cons_iff {m : String} : f.Takes d entries (n :: m :: names) ↔
    f.directories.accepts n = true ∧
      ∃ sub, entries.get? n = some (.directory sub) ∧ f.Takes d sub (m :: names) := by
  constructor
  · rintro ⟨⟨content, t, hfind⟩, hname, hancestors⟩
    obtain ⟨e, he, hfile⟩ := Option.bind_eq_some_iff.mp hfind
    rw [List.dropLast_cons_cons] at hancestors
    refine ⟨hancestors n List.mem_cons_self, ?_⟩
    cases e with
    | file content' t' => cases hfile
    | link target => cases hfile
    | directory sub =>
      exact ⟨sub, he, ⟨content, t, hfile⟩, hname, fun k hk =>
        hancestors k (List.mem_cons_of_mem n hk)⟩
  · rintro ⟨hn, sub, he, ⟨content, t, hfile⟩, hname, hancestors⟩
    refine ⟨⟨content, t, by rw [Entry.find?, he]; exact hfile⟩, hname, ?_⟩
    rw [List.dropLast_cons_cons, List.forall_mem_cons]
    exact ⟨hn, hancestors⟩

/-- The names found at an entry : its own if it is a file, and those below if it is a directory.
-/
theorem mem_namesAt_iff {e : Entry} : names ∈ f.namesAt d n e ↔
    (names = [n] ∧ f.TakesName d n ∧ ∃ content t, e = .file content t) ∨
    ∃ sub rest, e = .directory sub ∧ f.directories.accepts n = true ∧ names = n :: rest ∧
      rest ∈ f.namesIn d sub := by
  cases e with
  | file content t => by_cases h : f.TakesName d n <;> simp [namesAt, h]
  | directory sub =>
    by_cases h : f.directories.accepts n = true <;> simp [namesAt, h, eq_comm, and_comm]
  | link target => simp [namesAt]

theorem head?_of_mem_namesAt {e : Entry} (h : names ∈ f.namesAt d n e) : names.head? = some n := by
  rcases mem_namesAt_iff.mp h with ⟨rfl, -⟩ | ⟨sub, rest, -, -, rfl, -⟩ <;> rfl

/-- The walk comes to the files that are to be taken. -/
theorem mem_namesIn_iff (entries : Directory) : ∀ {names : List String}, entries.Ordered →
    (names ∈ f.namesIn d entries ↔ f.Takes d entries names) := by
  induction entries using Directory.forall_of_subdirectories with
  | h entries ih =>
    intro names ho
    have hsub {n : String} {sub : Directory} {rest : List String}
        (hn : entries.get? n = some (.directory sub)) :
        rest ∈ f.namesIn d sub ↔ f.Takes d sub rest :=
      ih n sub ((Directory.mem_toList_iff ho).mpr hn) (Directory.ordered_of_get? ho hn)
    have hmem : names ∈ f.namesIn d entries ↔
        ∃ n e, entries.get? n = some e ∧ names ∈ f.namesAt d n e := by
      simp only [namesIn_eq_flatMap, List.mem_flatMap, Prod.exists, Directory.mem_toList_iff ho]
    rw [hmem]
    -- A file is taken under a single name, and what has more names is in a directory.
    match names with
    | [] =>
      refine iff_of_false ?_ not_takes_nil
      rintro ⟨n, e, -, he⟩
      cases head?_of_mem_namesAt he
    | [n] =>
      rw [takes_singleton_iff]
      constructor
      · rintro ⟨m, e, hm, he⟩
        obtain rfl := Option.some.inj (head?_of_mem_namesAt he)
        rcases mem_namesAt_iff.mp he with ⟨-, hname, content, t, rfl⟩ | ⟨sub, rest, rfl, -, hrest, he⟩
        · exact ⟨hname, content, t, hm⟩
        · obtain rfl := (List.cons.inj hrest).2
          exact absurd ((hsub hm).mp he) not_takes_nil
      · rintro ⟨hname, content, t, hm⟩
        exact ⟨n, _, hm, mem_namesAt_iff.mpr (.inl ⟨rfl, hname, content, t, rfl⟩)⟩
    | n :: m :: rest =>
      rw [takes_cons_cons_iff]
      constructor
      · rintro ⟨k, e, hk, he⟩
        obtain rfl := Option.some.inj (head?_of_mem_namesAt he)
        rcases mem_namesAt_iff.mp he with ⟨hone, -⟩ | ⟨sub, rest', rfl, hn, hrest, he⟩
        · cases (List.cons.inj hone).2
        · obtain rfl := (List.cons.inj hrest).2
          exact ⟨hn, sub, hk, (hsub hk).mp he⟩
      · rintro ⟨hn, sub, hk, htakes⟩
        exact ⟨n, _, hk,
          mem_namesAt_iff.mpr (.inr ⟨sub, _, rfl, hn, rfl, (hsub hk).mpr htakes⟩)⟩

/-- The walk comes to files in the order of the names that lead to them. -/
theorem pairwise_namesIn (entries : Directory) :
    entries.Ordered → (f.namesIn d entries).Pairwise (· < ·) := by
  induction entries using Directory.forall_of_subdirectories with
  | h entries ih =>
    intro ho
    rw [namesIn_eq_flatMap]
    refine List.pairwise_flatMap.mpr ⟨fun ⟨n, e⟩ hx => ?_, ?_⟩
    · cases e with
      | file content t => by_cases h : f.TakesName d n <;> simp [namesAt, h]
      | link target => simp [namesAt]
      | directory sub =>
        have hsub := ih n sub hx
          (Directory.ordered_of_get? ho ((Directory.mem_toList_iff ho).mp hx))
        rw [namesAt]
        split
        · exact List.pairwise_map.mpr (hsub.imp .cons)
        · exact .nil
    · refine (Directory.pairwise_toList ho).imp fun {x y} hlt names hnames names' hnames' => ?_
      obtain ⟨rest, rfl⟩ := List.head?_eq_some_iff.mp (head?_of_mem_namesAt hnames)
      obtain ⟨rest', rfl⟩ := List.head?_eq_some_iff.mp (head?_of_mem_namesAt hnames')
      exact .rel hlt

/-! ### Lists of candidates -/

/-- The paths are those of the files to be taken that stand in a directory at `root`, each once, in
the order of their bytes, and their extensions stand for the dialect. -/
structure Lists (f : Filters) (d : Dialect) (entries : Directory) (root : Path) (ps : List Path) :
    Prop where
  exact : ∃ ways : List (List String), ps = ways.map root.descend ∧ ways.Nodup ∧
    ∀ names, names ∈ ways ↔ f.Takes d entries names
  inOrder : ps.Pairwise fun p q => p.bytes < q.bytes
  dialect : ∀ p ∈ ps, Dialect.ofPath? p = some d

/-- The candidates in a directory are listed in full, each once and in order. -/
theorem lists_candidatesIn (f : Filters) (d : Dialect) (hp : p.text ≠ "") (ho : entries.Ordered)
    (hproper : entries.Proper) : f.Lists d entries p (f.candidatesIn d p entries) where
  exact := ⟨f.namesIn d entries, candidatesIn_eq_map f d entries hp hproper,
    (pairwise_namesIn entries ho).imp fun h => ne_of_lt h, fun _ => mem_namesIn_iff entries ho⟩
  inOrder := by
    have hinner : ∀ names ∈ f.namesIn d entries, ∀ n ∈ names, (Component.name n).Inner := by
      intro names h
      obtain ⟨content, t, hfind⟩ := ((mem_namesIn_iff entries ho).mp h).file
      exact Entry.inner_of_find? (e := .directory entries) hproper hfind
    rw [candidatesIn_eq_map f d entries hp hproper]
    refine List.pairwise_map.mpr ((pairwise_namesIn entries ho).imp_of_mem ?_)
    exact fun h h' hlt => Path.bytes_descend_lt hp (hinner _ h) (hinner _ h') hlt
  dialect q hq := by
    have ha := (of_mem_candidatesIn entries hq).1
    rw [acceptsFile, Bool.and_eq_true, beq_iff_eq] at ha
    exact ha.1

end Filters

/-! ## Lists of wildcards -/

/-- One of the texts is a wildcard that stands for the name. -/
def Wildcard.Stands (patterns : List String) (name : String) : Prop :=
  ∃ p ∈ patterns, ∃ w, Wildcard.parse p = .ok w ∧ w.accepts name = true

theorem Wildcard.anyAccepts_of_mapM {patterns : List String} {ws : List Wildcard} {name : String}
    (h : (patterns.mapM fun p => (parse p).mapError (WildcardError.malformed p)) = .ok ws) :
    anyAccepts ws name = true ↔ Stands patterns name := by
  induction patterns generalizing ws with
  | nil =>
    cases h
    simp [anyAccepts, Stands]
  | cons p patterns ih =>
    rw [List.mapM_cons] at h
    cases hparse : parse p with
    | error e =>
      rw [hparse] at h
      cases h
    | ok w =>
      rw [hparse] at h
      obtain ⟨w', hw, h⟩ := Xml.exists_of_bind_eq_ok h
      obtain ⟨ws, hws, h⟩ := Xml.exists_of_bind_eq_ok h
      cases hw
      cases h
      have hrest := ih hws
      rw [anyAccepts, Stands] at hrest ⊢
      simp only [List.any_cons, Bool.or_eq_true, hrest, List.exists_mem_cons_iff, hparse,
        Except.ok.injEq, exists_eq_left']

/-- Some pattern accepts a name when the name fits one of them. -/
theorem Wildcard.anyAccepts_iff {patterns : List String} {ws : List Wildcard} {name : String}
    (h : parseAll patterns = .ok ws) : anyAccepts ws name = true ↔ Stands patterns name := by
  obtain ⟨ws', hread, hdepth⟩ := Xml.exists_of_bind_eq_ok h
  split at hdepth
  · cases hdepth
  · cases hdepth
    exact anyAccepts_of_mapM hread

/-- Names to take stand alone; names to leave out only count without them. -/
theorem NameFilter.accepts_iff {included excluded : List String} {filter : NameFilter}
    (h : ofLists included excluded = .ok filter) (name : String) :
    filter.accepts name = true ↔
      if included = [] then ¬Wildcard.Stands excluded name else Wildcard.Stands included name := by
  have hread {patterns : List String} {make : List Wildcard → NameFilter}
      (h : (Wildcard.parseAll patterns).map make = .ok filter) :
      ∃ ws, filter = make ws ∧
        (Wildcard.anyAccepts ws name = true ↔ Wildcard.Stands patterns name) := by
    cases hws : Wildcard.parseAll patterns with
    | error e =>
      rw [hws] at h
      cases h
    | ok ws =>
      rw [hws] at h
      exact ⟨ws, (Except.ok.inj h).symm, Wildcard.anyAccepts_iff hws⟩
  unfold ofLists at h
  cases included with
  | cons p included =>
    obtain ⟨ws, rfl, hstands⟩ := hread h
    rwa [if_neg (List.cons_ne_nil p included)]
  | nil =>
    rw [if_pos rfl]
    cases excluded with
    | cons p excluded =>
      obtain ⟨ws, rfl, hstands⟩ := hread h
      rw [accepts, ← hstands, Bool.not_eq_true', Bool.not_eq_true]
    | nil =>
      cases h
      simp [accepts, Wildcard.Stands]

/-! ## The walk -/

namespace FileSystem

variable {fs : FileSystem}

/-- A file whose extension stands for a dialect is not refused for its extension. -/
theorem readLabel_ne_unknownDialect (fs : FileSystem) (h : Dialect.ofPath? p = some d) (q : Path) :
    fs.readLabel p ≠ .error (.unknownDialect q) := by
  unfold readLabel
  rw [h]
  cases hread : fs.read p with
  | error e => exact nofun
  | ok content =>
    change Tree.ofText d (Text.Utf8.lossy content) ≠ _
    cases d with
    | modern =>
      unfold Tree.ofText
      cases Xml.readLabel (Text.Utf8.lossy content) <;> exact nofun
    | legacy =>
      unfold Tree.ofText
      cases Odl.readLabel (Text.Utf8.lossy content) <;> exact nofun

/-- **The walk lists the files to be taken.** Below a directory, unless it is spelled `-`, the
candidates are just the files to be taken : their names and the names of all directories on the way
pass the filters, and their extensions stand for the dialect, for which they are not refused. So
candidates of one dialect are none of the other. -/
theorem candidates_directory (ho : fs.root.Ordered) (hproper : fs.root.Proper)
    (hroot : fs.entry? root = .ok (.directory entries)) (f : Filters) (d : Dialect) :
    (root.same standardInput = true → fs.candidates f d root = .ok []) ∧
    (root.same standardInput = false → ∃ ps, fs.candidates f d root = .ok ps ∧
      f.Lists d entries root ps ∧
      (∀ p ∈ ps, ∀ (gs : FileSystem) (q : Path), gs.readLabel p ≠ .error (.unknownDialect q)) ∧
      ∀ f' d' qs, d' ≠ d → fs.candidates f' d' root = .ok qs → ps.Disjoint qs) ∧
    ∀ includedFiles excludedFiles excludedDirectories,
      Filters.ofLists includedFiles excludedFiles excludedDirectories = .ok f → ∀ n,
        (f.files.accepts n = true ↔ if includedFiles = [] then ¬Wildcard.Stands excludedFiles n
          else Wildcard.Stands includedFiles n) ∧
        (f.directories.accepts n = true ↔ ¬Wildcard.Stands excludedDirectories n) := by
  obtain ⟨here, hl⟩ := entry?_eq_ok_iff.mp hroot
  have hat := at?_of_locate hl
  have hlists := Filters.lists_candidatesIn f d (text_ne_of_locate hl)
    (Directory.ordered_of_at? ho hat) (Directory.proper_of_at? hproper hat)
  refine ⟨fun hinput => ?_, fun hinput => ⟨f.candidatesIn d root entries, ?_, hlists, ?_, ?_⟩, ?_⟩
  · rw [candidates, hroot]
    simp only [hinput, if_true]
  · rw [candidates, hroot]
    simp only [hinput, Bool.false_eq_true, if_false]
  · exact fun p hp gs q => readLabel_ne_unknownDialect gs (hlists.dialect p hp) q
  · intro f' d' qs hd hqs p hp hq
    have hdialect := ofPath?_of_mem_candidates hqs hq
    rw [hlists.dialect p hp] at hdialect
    exact hd (Option.some.inj hdialect).symm
  · intro includedFiles excludedFiles excludedDirectories hf n
    obtain ⟨files, hfiles, hf⟩ := Xml.exists_of_bind_eq_ok hf
    obtain ⟨directories, hdirectories, hf⟩ := Xml.exists_of_bind_eq_ok hf
    cases hf
    refine ⟨NameFilter.accepts_iff hfiles n, ?_⟩
    rw [NameFilter.accepts_iff hdirectories n, if_pos rfl]

/-- A shelf with a hidden directory, a directory and a link that have names of labels, and one
directory of a name to leave out. -/
def shelf : Directory :=
  .entry ".old" (.directory (.entry "c.xml" (.file .empty .epoch) .empty))
    (.entry "a.XML" (.directory (.entry "x.Xml" (.file .empty .epoch) .empty))
      (.entry "b.xml" (.link ⟨"t/e.xml"⟩)
        (.entry "browse" (.directory (.entry "p.xml" (.file .empty .epoch) .empty))
          (.entry "d.lbl" (.file .empty .epoch) (.entry "e.xml" (.file .empty .epoch) .empty)))))

/-- A file system with the shelf in a directory of the given name. -/
def shelfFiles (name : String) : FileSystem where
  root := .entry name (.directory shelf) .empty
  here := []
  clock := .epoch
  printed := ""

/-- Filters that leave out directories of names that start with `b`. -/
def shelfFilters : Filters where
  files := .all
  directories := .allBut [⟨"b*", [.literal 'b', .run]⟩]

theorem ordered_shelfFiles (name : String) : (shelfFiles name).root.Ordered :=
  ⟨⟨⟨trivial, nofun, trivial⟩, Directory.lt_of_toList (by decide +kernel),
    ⟨trivial, nofun, trivial⟩, Directory.lt_of_toList (by decide +kernel),
    trivial, Directory.lt_of_toList (by decide +kernel),
    ⟨trivial, nofun, trivial⟩, Directory.lt_of_toList (by decide +kernel),
    trivial, Directory.lt_of_toList (by decide +kernel), trivial, nofun, trivial⟩, nofun, trivial⟩

theorem proper_shelf : shelf.Proper := by
  simp [shelf, Directory.Proper, Entry.Proper, Component.Inner, longestName]
  decide +kernel

set_option maxRecDepth 100000 in
/-- The directory and the link that have names of labels are no labels, and the name of the root is
not asked for. -/
theorem candidates_directory_shelf :
    (shelfFiles "bin").root.Ordered ∧ (shelfFiles "bin").root.Proper ∧
    FileSystem.entry? (shelfFiles "bin") ⟨"bin"⟩ = .ok (.directory shelf) ∧
    Filters.ofLists [] [] ["b*"] = .ok shelfFilters ∧
    (shelfFiles "bin").candidates shelfFilters .modern ⟨"bin"⟩ =
      .ok [⟨"bin/.old/c.xml"⟩, ⟨"bin/a.XML/x.Xml"⟩, ⟨"bin/e.xml"⟩] ∧
    shelfFilters.Lists .modern shelf ⟨"bin"⟩
      [⟨"bin/.old/c.xml"⟩, ⟨"bin/a.XML/x.Xml"⟩, ⟨"bin/e.xml"⟩] := by
  have hroot : FileSystem.entry? (shelfFiles "bin") ⟨"bin"⟩ = .ok (.directory shelf) := by rfl
  have hproper : (shelfFiles "bin").root.Proper :=
    ⟨⟨by simp [Component.Inner], by decide +kernel⟩, proper_shelf, trivial⟩
  have hfilters : Filters.ofLists [] [] ["b*"] = .ok shelfFilters := by cbv
  obtain ⟨-, hlists, -⟩ :=
    candidates_directory (ordered_shelfFiles "bin") hproper hroot shelfFilters .modern
  obtain ⟨ps, hps, hlists, -⟩ := hlists (by decide +kernel)
  have hcandidates : (shelfFiles "bin").candidates shelfFilters .modern ⟨"bin"⟩ =
      .ok [⟨"bin/.old/c.xml"⟩, ⟨"bin/a.XML/x.Xml"⟩, ⟨"bin/e.xml"⟩] := by decide +kernel
  obtain rfl := Except.ok.inj (hps.symm.trans hcandidates)
  exact ⟨ordered_shelfFiles "bin", hproper, hroot, hfilters, hcandidates, hlists⟩

set_option maxRecDepth 100000 in
/-- The files in a directory of the name `-` are not found. -/
theorem candidates_dash :
    ¬∀ (fs : FileSystem) (root : Path) (entries : Directory) (f : Filters) (d : Dialect),
      fs.root.Ordered → fs.root.Proper → fs.entry? root = .ok (.directory entries) →
        ∃ ps, fs.candidates f d root = .ok ps ∧ f.Lists d entries root ps := by
  intro h
  have hproper : (shelfFiles "-").root.Proper :=
    ⟨⟨by simp [Component.Inner], by decide +kernel⟩, proper_shelf, trivial⟩
  obtain ⟨ps, hps, ⟨ways, hways, -, hmem⟩, -, -⟩ :=
    h (shelfFiles "-") ⟨"-"⟩ shelf shelfFilters .modern (ordered_shelfFiles "-") hproper rfl
  have hnone : (shelfFiles "-").candidates shelfFilters .modern ⟨"-"⟩ = .ok [] := by decide +kernel
  obtain rfl := Except.ok.inj (hps.symm.trans hnone)
  have htakes : shelfFilters.Takes .modern shelf ["e.xml"] :=
    ⟨⟨_, _, rfl⟩, ⟨"e.xml", rfl, by decide +kernel⟩, nofun⟩
  rw [List.map_eq_nil_iff.mp hways.symm] at hmem
  exact List.not_mem_nil ((hmem ["e.xml"]).mpr htakes)

end FileSystem

end ArchiveLabels
