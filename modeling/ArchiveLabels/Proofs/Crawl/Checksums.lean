import ArchiveLabels.Crawl.Manifest
import ArchiveLabels.Proofs.Path.Order
import ArchiveLabels.Proofs.Text.Blank

/-!
# What checksum manifests answer

A manifest is told by the lines of its text. `Manifest.Gives` : a line gives a checksum for a path,
with one or two blanks between them. `Manifest.LacksPath` : it has nothing that could be a path, and
the first such line is what a text is refused for. Of all lines that give a checksum for a file,
however its path is spelled, the last one counts (`Manifest.LastGives`), in what is looked up, in
what is listed and in what is said of the files that a label declares (`Manifest.Answers`).
-/

namespace ArchiveLabels

open Text

namespace Manifest

variable {cwd base p : Path} {line sum : String} {cs token path : List Char}

/-! ## Lines -/

/-- A word, one blank and a rest that starts with none, or a word, two blanks and any rest. -/
def Splits (cs token path : List Char) : Prop :=
  ∃ gap, cs = token ++ (gap ++ path) ∧ (∀ c ∈ token, isBlank c = false) ∧
    (∀ c ∈ gap, isBlank c = true) ∧
    (gap.length = 1 ∧ (∀ c ∈ path.head?, isBlank c = false) ∨ gap.length = 2)

/-- The line gives the checksum for the path. -/
def Gives (line sum : String) (path : Path) : Prop :=
  ∃ token, Splits (trim line).toList token path.text.toList ∧ sum = lower (String.ofList token)

/-- The line is not blank and has no blanks inside. -/
def LacksPath (line : String) : Prop :=
  trim line ≠ "" ∧ ∀ c ∈ (trim line).toList, isBlank c = false

theorem dropBlank_of_head (h : ∀ c ∈ cs.head?, isBlank c = false) : dropBlank cs = cs := by
  cases cs with
  | nil => rfl
  | cons c cs => simp [dropBlank, h c rfl]

theorem dropBlank_cons {c : Char} (h : isBlank c = true) : dropBlank (c :: cs) = cs := by
  simp [dropBlank, h]

/-- A text has no blanks, or a word in front of a first blank. -/
theorem exists_first_blank (cs : List Char) : (∀ c ∈ cs, isBlank c = false) ∨
    ∃ word b rest, cs = word ++ b :: rest ∧ (∀ c ∈ word, isBlank c = false) ∧ isBlank b = true := by
  induction cs with
  | nil => exact .inl (List.forall_mem_nil _)
  | cons c cs ih =>
    cases hc : isBlank c with
    | true => exact .inr ⟨[], c, cs, rfl, List.forall_mem_nil _, hc⟩
    | false =>
      rcases ih with hall | ⟨word, b, rest, rfl, hword, hb⟩
      · exact .inl (List.forall_mem_cons.mpr ⟨hc, hall⟩)
      · exact .inr ⟨c :: word, b, rest, rfl, List.forall_mem_cons.mpr ⟨hc, hword⟩, hb⟩

theorem splitLine?_of_forall (h : ∀ c ∈ cs, isBlank c = false) : splitLine? cs = none := by
  have hword : cs.takeWhile (fun c => !isBlank c) = cs :=
    List.takeWhile_eq_self_iff.mpr fun c hc => by rw [h c hc]; rfl
  simp [splitLine?, hword, dropBlank]

/-- A line is split behind its first word. -/
theorem splitLine?_append {word rest : List Char} {b : Char} (hne : word ≠ [])
    (hword : ∀ c ∈ word, isBlank c = false) (hb : isBlank b = true) (hrest : dropBlank rest ≠ []) :
    splitLine? (word ++ b :: rest) = some (word, dropBlank rest) := by
  have htake : (word ++ b :: rest).takeWhile (fun c => !isBlank c) = word := by
    rw [List.takeWhile_append_of_pos fun c hc => by rw [hword c hc]; rfl,
      List.takeWhile_cons_of_neg (by simp [hb]), List.append_nil]
  simp [splitLine?, htake, dropBlank_cons hb, hne, hrest]

/-- Behind the blank of a trimmed text there is something, whether one blank is dropped or two. -/
theorem dropBlank_ne_nil {word rest : List Char} {b : Char} (hb : isBlank b = true)
    (h : trimChars (word ++ b :: rest) = word ++ b :: rest) : dropBlank rest ≠ [] := by
  have hlast := last_of_trimmed h
  match rest with
  | [] => simp [hb] at hlast
  | [c] => simp_all [dropBlank]
  | c :: d :: rest =>
    simp only [dropBlank]
    split <;> exact List.cons_ne_nil _ _

theorem word_ne_nil {word rest : List Char} {b : Char} (hb : isBlank b = true)
    (h : trimChars (word ++ b :: rest) = word ++ b :: rest) : word ≠ [] := by
  rintro rfl
  have hhead := head_of_trimmed h b rfl
  rw [hb] at hhead
  cases hhead

/-- A trimmed text is split as it should be. -/
theorem splitLine?_eq_some_iff (hcs : trimChars cs = cs) :
    splitLine? cs = some (token, path) ↔ Splits cs token path := by
  constructor
  · intro h
    rcases exists_first_blank cs with hall | ⟨word, b, rest, rfl, hword, hb⟩
    · rw [splitLine?_of_forall hall] at h
      cases h
    · rw [splitLine?_append (word_ne_nil hb hcs) hword hb (dropBlank_ne_nil hb hcs)] at h
      cases h
      match rest with
      | [] => exact absurd rfl (dropBlank_ne_nil hb hcs)
      | c :: rest =>
        cases hc : isBlank c with
        | true =>
          rw [dropBlank_cons hc]
          exact ⟨[b, c], rfl, hword, by simp [hb, hc], .inr rfl⟩
        | false =>
          rw [dropBlank_of_head (by simpa using hc)]
          exact ⟨[b], rfl, hword, by simp [hb], .inl ⟨rfl, by simpa using hc⟩⟩
  · rintro ⟨gap, rfl, hword, hgap, ⟨hlength, hhead⟩ | hlength⟩
    · obtain ⟨b, rfl⟩ := List.length_eq_one_iff.mp hlength
      have hb := hgap b List.mem_cons_self
      have htrimmed : trimChars (token ++ b :: path) = token ++ b :: path := hcs
      have hsplit := splitLine?_append (word_ne_nil hb htrimmed) hword hb
        (dropBlank_ne_nil hb htrimmed)
      rwa [dropBlank_of_head hhead] at hsplit
    · obtain ⟨b, c, rfl⟩ := List.length_eq_two.mp hlength
      have hb := hgap b List.mem_cons_self
      have htrimmed : trimChars (token ++ b :: c :: path) = token ++ b :: c :: path := hcs
      have hsplit := splitLine?_append (word_ne_nil hb htrimmed) hword hb
        (dropBlank_ne_nil hb htrimmed)
      rwa [dropBlank_cons (hgap c (by simp))] at hsplit

/-- Only a line of one word is not split. -/
theorem splitLine?_eq_none_iff (hcs : trimChars cs = cs) :
    splitLine? cs = none ↔ ∀ c ∈ cs, isBlank c = false := by
  refine ⟨fun h => ?_, splitLine?_of_forall⟩
  rcases exists_first_blank cs with hall | ⟨word, b, rest, rfl, hword, hb⟩
  · exact hall
  · rw [splitLine?_append (word_ne_nil hb hcs) hword hb (dropBlank_ne_nil hb hcs)] at h
    cases h

/-! ### What a line says -/

theorem toList_trim (line : String) : (trim line).toList = trimChars line.toList :=
  String.toList_ofList

theorem trimChars_trim (line : String) : trimChars (trim line).toList = (trim line).toList := by
  have h := congrArg String.toList (trim_trim line)
  rwa [trim, String.toList_ofList] at h

/-- A line gives a checksum when it is split, and then the one in front of the path. -/
theorem gives_iff {path : Path} : Gives line sum path ↔ ∃ token,
    splitLine? (trim line).toList = some (token, path.text.toList) ∧
      sum = lower (String.ofList token) := by
  simp only [Gives, splitLine?_eq_some_iff (trimChars_trim line)]

/-- A line gives one checksum for one file. -/
theorem Gives.unique {s s' : String} {q q' : Path} (h : Gives line s q) (h' : Gives line s' q') :
    s' = s ∧ q' = q := by
  obtain ⟨token, hsplit, rfl⟩ := gives_iff.mp h
  obtain ⟨token', hsplit', rfl⟩ := gives_iff.mp h'
  obtain ⟨htoken, hpath⟩ := Prod.mk.inj (Option.some.inj (hsplit'.symm.trans hsplit))
  exact ⟨by rw [htoken], congrArg Path.mk (String.toList_inj.mp hpath)⟩

theorem not_gives_of_blank (h : trim line = "") (s : String) (q : Path) : ¬Gives line s q := by
  intro hgives
  obtain ⟨token, hsplit, -⟩ := gives_iff.mp hgives
  rw [h] at hsplit
  cases hsplit

/-- A line is blank, lacks a path or gives a checksum. -/
theorem line_cases (line : String) :
    trim line = "" ∨ LacksPath line ∨ ∃ s q, Gives line s q := by
  by_cases hblank : trim line = ""
  · exact .inl hblank
  · cases hsplit : splitLine? (trim line).toList with
    | none => exact .inr (.inl ⟨hblank, (splitLine?_eq_none_iff (trimChars_trim line)).mp hsplit⟩)
    | some x =>
      obtain ⟨token, path⟩ := x
      exact .inr (.inr ⟨_, ⟨String.ofList path⟩, gives_iff.mpr ⟨token, by simpa using hsplit, rfl⟩⟩)

/-! ### Adding a line -/

section

variable {t : Table Path String} {number : Nat}

/-- A blank line adds nothing. -/
theorem addLine_of_blank (h : trim line = "") : addLine cwd base t number line = .ok t := by
  have hempty : (trim line).toList.isEmpty = true := by rw [h]; rfl
  simp only [addLine, ← toList_trim, if_pos hempty]

/-- A line without a path is an error, reported by its number. -/
theorem addLine_of_lacksPath (h : LacksPath line) :
    addLine cwd base t number line = .error (.missingPath number (trim line)) := by
  have hne : ¬(trim line).toList.isEmpty = true := by simpa using h.1
  simp only [addLine, if_neg hne, ← toList_trim, splitLine?_of_forall h.2, String.ofList_toList]

/-- Any other line puts its checksum, over one put before. -/
theorem addLine_of_gives {q : Path} (h : Gives line sum q) :
    addLine cwd base t number line =
      .ok (t.put Path.isLess (Path.absolute cwd (base.join q)) sum) := by
  have hne : ¬(trim line).toList.isEmpty = true := fun hempty =>
    not_gives_of_blank (by simpa using hempty) sum q h
  obtain ⟨token, hsplit, rfl⟩ := gives_iff.mp h
  simp only [addLine, if_neg hne, ← toList_trim, hsplit, String.ofList_toList]

end

/-! ## Texts -/

/-- The components by which a file is known. -/
def key (cwd p : Path) : List Component :=
  (Path.absolute cwd p).components

/-- Of the lines that give a checksum for the file, the last gives `sum`. -/
def LastGives (cwd base : Path) (ls : List String) (file : List Component) (sum : String) : Prop :=
  ∃ before line after q, ls = before ++ line :: after ∧ Gives line sum q ∧
    key cwd (base.join q) = file ∧
    ∀ l ∈ after, ∀ s q', Gives l s q' → key cwd (base.join q') ≠ file

variable {ls : List String} {file : List Component}

theorem not_lastGives_nil : ¬LastGives cwd base [] file sum := by
  rintro ⟨before, line, after, q, h, -⟩
  simp at h

/-- The last line about a file counts. -/
theorem lastGives_concat : LastGives cwd base (ls ++ [line]) file sum ↔
    (∃ q, Gives line sum q ∧ key cwd (base.join q) = file) ∨
    (∀ s q, Gives line s q → key cwd (base.join q) ≠ file) ∧ LastGives cwd base ls file sum := by
  constructor
  · rintro ⟨before, l, after, q, h, hgives, hkey, hafter⟩
    rcases List.eq_nil_or_concat after with rfl | ⟨after, last, rfl⟩
    · obtain ⟨-, hl⟩ := List.append_inj' h rfl
      obtain rfl := List.singleton_inj.mp hl
      exact .inl ⟨q, hgives, hkey⟩
    · have h' : ls ++ [line] = (before ++ l :: after) ++ [last] := by simpa using h
      obtain ⟨rfl, hl⟩ := List.append_inj' h' rfl
      obtain rfl := List.singleton_inj.mp hl
      exact .inr ⟨hafter line (by simp), before, l, after, q, rfl, hgives, hkey,
        fun l hl => hafter l (by simp [hl])⟩
  · rintro (⟨q, hgives, hkey⟩ | ⟨hnot, before, l, after, q, rfl, hgives, hkey, hafter⟩)
    · exact ⟨ls, line, [], q, rfl, hgives, hkey, nofun⟩
    · refine ⟨before, l, after ++ [line], q, by simp, hgives, hkey, fun l hl => ?_⟩
      rcases List.mem_append.mp hl with hl | hl
      · exact hafter l hl
      · rw [List.mem_singleton.mp hl]
        exact hnot

/-- There is a last line if there is one at all. -/
theorem exists_lastGives_iff : (∃ sum, LastGives cwd base ls file sum) ↔
    ∃ line ∈ ls, ∃ s q, Gives line s q ∧ key cwd (base.join q) = file := by
  constructor
  · rintro ⟨sum, before, line, after, q, rfl, hgives, hkey, -⟩
    exact ⟨line, by simp, sum, q, hgives, hkey⟩
  · induction ls using List.reverseRecOn with
    | nil => simp
    | append_singleton ls last ih =>
      rintro ⟨line, hline, s, q, hgives, hkey⟩
      by_cases hlast : ∃ s q, Gives last s q ∧ key cwd (base.join q) = file
      · obtain ⟨s, q, hlast⟩ := hlast
        exact ⟨s, lastGives_concat.mpr (.inl ⟨q, hlast⟩)⟩
      · have hnot : ∀ s q, Gives last s q → key cwd (base.join q) ≠ file :=
          fun s q hg hk => hlast ⟨s, q, hg, hk⟩
        rcases List.mem_append.mp hline with hline | hline
        · obtain ⟨sum, hsum⟩ := ih ⟨line, hline, s, q, hgives, hkey⟩
          exact ⟨sum, lastGives_concat.mpr (.inr ⟨hnot, hsum⟩)⟩
        · rw [List.mem_singleton.mp hline] at hgives
          exact absurd hkey (hnot s q hgives)

/-! ## Reading the lines -/

/-- The table says what the lines say. -/
structure Records (cwd base : Path) (ls : List String) (t : Table Path String) : Prop where
  /-- No path is listed twice. -/
  ascending : t.Ascending Path.rank
  /-- The last line about a file counts. -/
  get?_eq_some_iff : ∀ p sum,
    t.get? Path.isLess p = some sum ↔ LastGives cwd base ls p.components sum
  /-- Every path that is listed is the absolute path on a line. -/
  spelled : ∀ e ∈ t, ∃ line ∈ ls, ∃ sum q,
    Gives line sum q ∧ e.1 = Path.absolute cwd (base.join q)

namespace Records

variable {t : Table Path String}

theorem nil : Records cwd base [] [] where
  ascending := .nil
  get?_eq_some_iff p sum := by simp [Table.get?, not_lastGives_nil]
  spelled := nofun

/-- A line that gives nothing adds nothing. -/
theorem skip (h : Records cwd base ls t) (hnot : ∀ s q, ¬Gives line s q) :
    Records cwd base (ls ++ [line]) t where
  ascending := h.ascending
  get?_eq_some_iff p sum := by simp [lastGives_concat, h.get?_eq_some_iff, hnot]
  spelled e he :=
    have ⟨l, hl, hgives⟩ := h.spelled e he
    ⟨l, List.mem_append_left _ hl, hgives⟩

/-- A line that gives a checksum sets it. -/
theorem put (h : Records cwd base ls t) {q : Path} (hgives : Gives line sum q) :
    Records cwd base (ls ++ [line])
      (t.put Path.isLess (Path.absolute cwd (base.join q)) sum) where
  ascending := h.ascending.put Path.ranked _ _
  get?_eq_some_iff p s := by
    simp only [Table.get?_put Path.ranked, Path.rank_eq_iff, lastGives_concat]
    split_ifs with hkey
    · constructor
      · rintro ⟨⟩
        exact .inl ⟨q, hgives, hkey.symm⟩
      · rintro (⟨q', hgives', -⟩ | ⟨hnot, -⟩)
        · rw [(hgives.unique hgives').1]
        · exact absurd hkey.symm (hnot sum q hgives)
    · rw [h.get?_eq_some_iff]
      constructor
      · intro hlast
        refine .inr ⟨fun s' q' hgives' hkey' => hkey ?_, hlast⟩
        rw [(hgives.unique hgives').2] at hkey'
        exact hkey'.symm
      · rintro (⟨q', hgives', hkey'⟩ | ⟨-, hlast⟩)
        · rw [(hgives.unique hgives').2] at hkey'
          exact absurd hkey'.symm hkey
        · exact hlast
  spelled e he := by
    rcases Table.fst_of_mem_put he with hfst | ⟨f, hf, hfst⟩
    · exact ⟨line, by simp, sum, q, hgives, hfst⟩
    · obtain ⟨l, hl, s, q', hgives', hspelled⟩ := h.spelled f hf
      exact ⟨l, List.mem_append_left _ hl, s, q', hgives', hfst ▸ hspelled⟩

/-- One line. -/
theorem addLine (h : Records cwd base ls t) (number : Nat) (hline : ¬LacksPath line) :
    ∃ u, addLine cwd base t number line = .ok u ∧ Records cwd base (ls ++ [line]) u := by
  rcases line_cases line with hblank | hlacks | ⟨s, q, hgives⟩
  · exact ⟨t, addLine_of_blank hblank, h.skip (not_gives_of_blank hblank)⟩
  · exact absurd hlacks hline
  · exact ⟨_, addLine_of_gives hgives, h.put hgives⟩

end Records

section

variable {t u : Table Path String} {number : Nat}

theorem readLines_cons_ok (h : addLine cwd base t number line = .ok u)
    (rest : List String) :
    readLines cwd base t number (line :: rest) = readLines cwd base u (number + 1) rest := by
  rw [readLines, h]
  rfl

/-- The first line that fails stops the reading. -/
theorem readLines_cons_error {e : ManifestError}
    (h : addLine cwd base t number line = .error e) (rest : List String) :
    readLines cwd base t number (line :: rest) = .error e := by
  rw [readLines, h]
  rfl

end

/-- What comes of the lines behind those that are told. -/
theorem readLines_records {t : Table Path String} {done : List String}
    (h : Records cwd base done t) (rest : List String) :
    match readLines cwd base t (done.length + 1) rest with
    | .error e => ∃ before line after, rest = before ++ line :: after ∧
        (∀ l ∈ before, ¬LacksPath l) ∧ LacksPath line ∧
        e = .missingPath ((done ++ before).length + 1) (trim line)
    | .ok m => (∀ l ∈ rest, ¬LacksPath l) ∧ Records cwd base (done ++ rest) m.entries := by
  -- Each step moves a line from `rest` to the end of `done`, whose length gives the number.
  induction rest generalizing done t with
  | nil => exact ⟨nofun, by simpa [readLines] using h⟩
  | cons line rest ih =>
    by_cases hlacks : LacksPath line
    · rw [readLines_cons_error (addLine_of_lacksPath hlacks)]
      exact ⟨[], line, rest, rfl, nofun, hlacks, by rw [List.append_nil]⟩
    · obtain ⟨u, hadd, hu⟩ := h.addLine (done.length + 1) hlacks
      have hrest := ih hu
      rw [List.length_append, List.length_singleton] at hrest
      rw [readLines_cons_ok hadd]
      cases hread : readLines cwd base u (done.length + 1 + 1) rest with
      | error e =>
        rw [hread] at hrest
        obtain ⟨before, l, after, rfl, hbefore, hl, rfl⟩ := hrest
        exact ⟨line :: before, l, after, rfl, List.forall_mem_cons.mpr ⟨hlacks, hbefore⟩, hl,
          by simp⟩
      | ok m =>
        rw [hread] at hrest
        exact ⟨List.forall_mem_cons.mpr ⟨hlacks, hrest.1⟩, by simpa using hrest.2⟩

/-! ## What is answered -/

/-- The problem is of this kind and stands where the label names the file. -/
structure IsProblem (kind : ProblemKind) (label : Path) (f : DeclaredFile) (p : Problem) :
    Prop where
  kind_eq : p.kind = kind
  severity_eq : p.severity = kind.severity
  source_eq : p.source = label.text
  line_eq : p.line = some f.pos.line
  column_eq : p.column = some f.pos.column

theorem isProblem_atPosition (kind : ProblemKind) (message : String) (label : Path)
    (f : DeclaredFile) :
    IsProblem kind label f ((Problem.ofKind kind message label.text).atPosition f.pos) :=
  ⟨rfl, rfl, rfl, rfl, rfl⟩

/-- What there is to say about a file that a label declares. -/
inductive Tells (cwd base : Path) (ls : List String) (label : Path) (f : DeclaredFile) :
    Option Problem → Prop
  /-- The label declares no checksum. -/
  | undeclared (h : f.checksum = none) : Tells cwd base ls label f none
  /-- The checksum that counts is the declared one. -/
  | agreed {declared : String} (h : f.checksum = some declared)
      (hlast : LastGives cwd base ls (key cwd (label.directory.join ⟨f.name⟩)) declared) :
      Tells cwd base ls label f none
  /-- No line is about the file. -/
  | unlisted {declared : String} {p : Problem} (h : f.checksum = some declared)
      (hnone : ∀ line ∈ ls, ∀ s q, Gives line s q →
        key cwd (base.join q) ≠ key cwd (label.directory.join ⟨f.name⟩))
      (hp : IsProblem .checksumNotListed label f p) : Tells cwd base ls label f (some p)
  /-- The checksum that counts is another one. -/
  | mismatched {declared listed : String} {p : Problem} (h : f.checksum = some declared)
      (hlast : LastGives cwd base ls (key cwd (label.directory.join ⟨f.name⟩)) listed)
      (hne : listed ≠ declared) (hp : IsProblem .checksumMismatch label f p) :
      Tells cwd base ls label f (some p)

/-- The manifest answers for the last line about a file. -/
structure Answers (m : Manifest) (cwd base : Path) (ls : List String) : Prop where
  /-- It gives what the last line about a file gives. -/
  get?_eq_some_iff : ∀ p sum, m.get? cwd p = some sum ↔ LastGives cwd base ls (key cwd p) sum
  /-- It gives nothing for files that no line is about. -/
  get?_eq_none_iff : ∀ p, m.get? cwd p = none ↔
    ∀ line ∈ ls, ∀ s q, Gives line s q → key cwd (base.join q) ≠ key cwd p
  /-- It lists its paths once, in order. -/
  ascending : m.entries.Pairwise fun e f => e.1.isLess f.1 = true
  /-- It lists what it gives. -/
  listed_iff : ∀ file sum, (∃ e ∈ m.entries, e.1.components = file ∧ e.2 = sum) ↔
    LastGives cwd base ls file sum
  /-- It lists absolute paths. -/
  spelled : ∀ e ∈ m.entries, ∃ line ∈ ls, ∃ sum q,
    Gives line sum q ∧ e.1 = Path.absolute cwd (base.join q)
  /-- It says of each file what there is to say, in order. -/
  verify_eq : ∀ label files, ∃ told, m.verify cwd label files = told.reduceOption ∧
    List.Forall₂ (Tells cwd base ls label) files told

variable {m : Manifest}

/-- The table answers with the last line about the file. -/
theorem Records.get?_iff (h : Records cwd base ls m.entries) (p : Path) (sum : String) :
    m.get? cwd p = some sum ↔ LastGives cwd base ls (key cwd p) sum :=
  h.get?_eq_some_iff _ _

theorem Records.get?_eq_none_iff (h : Records cwd base ls m.entries) (p : Path) :
    m.get? cwd p = none ↔
      ∀ line ∈ ls, ∀ s q, Gives line s q → key cwd (base.join q) ≠ key cwd p := by
  rw [← not_iff_not, ← ne_eq, Option.ne_none_iff_exists']
  simp only [h.get?_iff, exists_lastGives_iff, not_forall, ne_eq, not_not, exists_prop]

theorem Records.listed_iff {t : Table Path String} (h : Records cwd base ls t)
    (file : List Component) (sum : String) :
    (∃ e ∈ t, e.1.components = file ∧ e.2 = sum) ↔ LastGives cwd base ls file sum := by
  have hget (p : Path) : (∃ e ∈ t, e.1.components = p.components ∧ e.2 = sum) ↔
      LastGives cwd base ls p.components sum := by
    simp only [← h.get?_eq_some_iff, Table.get?_eq_some_iff Path.ranked h.ascending,
      Path.rank_eq_iff]
  constructor
  · rintro ⟨e, he, rfl, rfl⟩
    exact (hget e.1).mp ⟨e, he, rfl, rfl⟩
  · intro hlast
    -- The table is asked for paths, and the components of a last line are those of one.
    have ⟨_, _, _, q, _, _, hkey, _⟩ := hlast
    subst hkey
    exact (hget (Path.absolute cwd (base.join q))).mpr hlast

/-- What there is to say about a declared file : nothing, that no line lists it, or that the
listed checksum differs. -/
theorem Records.tells (h : Records cwd base ls m.entries) (label : Path) (f : DeclaredFile) :
    Tells cwd base ls label f (m.fileProblem? cwd label f) := by
  unfold fileProblem?
  cases hdeclared : f.checksum with
  | none => exact .undeclared hdeclared
  | some declared =>
    cases hget : m.get? cwd (label.directory.join ⟨f.name⟩) with
    | none =>
      exact .unlisted hdeclared ((h.get?_eq_none_iff _).mp hget) (isProblem_atPosition _ _ _ _)
    | some listed =>
      have hlast := (h.get?_iff _ _).mp hget
      by_cases heq : listed = declared
      · simp only [if_pos heq]
        exact .agreed hdeclared (heq ▸ hlast)
      · simp only [if_neg heq]
        exact .mismatched hdeclared hlast heq (isProblem_atPosition _ _ _ _)

/-- The table answers as the lines say. -/
theorem Records.answers (h : Records cwd base ls m.entries) : m.Answers cwd base ls where
  get?_eq_some_iff := h.get?_iff
  get?_eq_none_iff := h.get?_eq_none_iff
  ascending := h.ascending.imp fun hlt => (Path.ranked _ _).mpr hlt
  listed_iff := h.listed_iff
  spelled := h.spelled
  verify_eq label files :=
    ⟨files.map (m.fileProblem? cwd label), (List.filterMap_map (g := id)).symm,
      List.forall₂_map_right_iff.mpr (List.forall₂_same.mpr fun f _ => h.tells label f)⟩

/-- **A manifest answers for the last line about a file.** A text is refused just for its first line
that lacks a path, with the number of the line and what it says. -/
theorem parse_answers (cwd base : Path) (text : String) :
    match parse cwd base text with
    | .error e => ∃ before line after, lines text = before ++ line :: after ∧
        (∀ l ∈ before, ¬LacksPath l) ∧ LacksPath line ∧
        e = .missingPath (before.length + 1) (trim line)
    | .ok m => (∀ l ∈ lines text, ¬LacksPath l) ∧ m.Answers cwd base (lines text) := by
  have hread := readLines_records (.nil : Records cwd base [] []) (lines text)
  unfold parse
  cases hparse : readLines cwd base [] 1 (lines text) with
  | error e =>
    simpa [hparse] using hread
  | ok m =>
    simp only [List.length_nil, Nat.zero_add, hparse] at hread
    exact ⟨hread.1, hread.2.answers⟩

/-- Of two lines about a file the second one counts, though it spells the path in another way. -/
example : (parse ⟨"/d"⟩ ⟨"b"⟩ "AB x\n\ncD  ./x\n").toOption.bind (·.get? ⟨"/d"⟩ ⟨"/d//b/x"⟩) =
    some "cd" := by decide +kernel

end Manifest

end ArchiveLabels
