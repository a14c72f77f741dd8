import ArchiveLabels.Config.Codec
import ArchiveLabels.Proofs.Json.Tables

/-!
# The settings one by one

A `Setting` says where one value of a structure stands in what the structure is read from, how it
is read there, and what the structure has for it. All that `Config.ofJson?` does is to read each
setting where it stands and to give it its default where nothing stands (`Config.holds_settings`),
and there is no more in a configuration than its settings (`Config.eq_of_settings`). The settings
that are tables are kept apart : they alone are read from what is a table
(`Config.refusesTables_leaves`).
-/

namespace ArchiveLabels

/-- A setting of a structure. -/
structure Setting (σ : Type) where
  /-- On each step to the setting the names of the fields that there are, in their order, and the
  name of the one that is taken. -/
  way : List (List String × String)
  /-- What values it has. -/
  Value : Type
  /-- Reads a value. -/
  read : Json → Option Value
  /-- Its value in a structure. -/
  value : σ → Value

/-- A setting that is a table of strings. -/
structure TableSetting (σ : Type) where
  /-- The steps to the setting. -/
  way : List (List String × String)
  /-- Its value in a structure. -/
  value : σ → Table String String

namespace Json

/-- The fields of a structure with fields of the given names, be it written as a table or as a list.
-/
def named (names : List String) : Json → List (String × Json)
  | .obj fields => fields
  | .arr items => names.zip items
  | _ => []

/-- What stands at the end of a way. -/
def found? : List (List String × String) → Json → Option Json
  | [], j => some j
  | (names, name) :: way, j => ((j.named names).lookup name).bind (found? way)

/-- The fields of a record are taken by their names. -/
theorem eq_named_of_fields? {names : List String} {least : Nat} {j : Json}
    {fields : List (String × Json)} (h : j.fields? names least = some fields) :
    fields = j.named names := by
  unfold fields? at h
  split at h
  · split at h
    · exact (Option.some.inj h).symm
    · cases h
  · split at h
    · exact (Option.some.inj h).symm
    · cases h
  · cases h

/-- What keys lead to through tables stands at the end of the way. -/
theorem found?_of_at? {way : List (List String × String)} {j v : Json}
    (h : j.at? (way.map Prod.snd) = some v) : j.found? way = some v := by
  induction way generalizing j with
  | nil => exact h
  | cons step way ih =>
    obtain ⟨names, name⟩ := step
    cases j with
    | obj fields =>
      rw [List.map_cons, at?_obj_cons] at h
      obtain ⟨w, hw, h⟩ := Option.bind_eq_some_iff.mp h
      exact Option.bind_eq_some_iff.mpr ⟨w, hw, ih h⟩
    | _ => cases h

/-- Nothing stands at the end of a way where neither keys nor lists lead. -/
theorem found?_eq_none {way : List (List String × String)} {j : Json}
    (h : j.at? (way.map Prod.snd) = none)
    (hl : ∀ ks items, ks <+: way.map Prod.snd → j.at? ks ≠ some (.arr items)) :
    j.found? way = none := by
  induction way generalizing j with
  | nil => cases h
  | cons step way ih =>
    obtain ⟨names, name⟩ := step
    cases j with
    | obj fields =>
      rw [List.map_cons, at?_obj_cons] at h
      refine Option.bind_eq_none_iff.mpr fun w hw => ?_
      have hw : fields.lookup name = some w := hw
      rw [hw] at h
      refine ih h fun ks items hks => ?_
      have := hl (name :: ks) items (List.prefix_cons_inj name |>.mpr hks)
      rwa [at?_obj_cons, hw] at this
    | arr items => exact absurd rfl (hl [] items List.nil_prefix)
    | _ => rfl

end Json

open Json (found? named)

namespace Setting

variable {σ τ : Type}

/-- The keys that lead to the setting. -/
def keys (s : Setting σ) : List String := s.way.map Prod.snd

/-- The setting is read where it stands in `j`, and has its default if it does not. -/
def Holds (s : Setting σ) (default : σ) (j : Json) (c : σ) : Prop :=
  match j.found? s.way with
  | some v => s.read v = some (s.value c)
  | none => s.value c = s.value default

/-- The setting is not read from a table, unless `null` stands in it. -/
def RefusesTables (s : Setting σ) : Prop :=
  ∀ fields : List (String × Json), (∀ k, fields.lookup k ≠ some .null) →
    s.read (.obj fields) = none

/-- A setting that is one of the fields of a structure. -/
def field {α : Type} (names : List String) (name : String) (read : Json → Option α)
    (value : σ → α) : Setting σ :=
  ⟨[(names, name)], α, read, value⟩

/-- A setting of a part of a structure. -/
def under (names : List String) (name : String) (part : τ → σ) (s : Setting σ) : Setting τ :=
  ⟨(names, name) :: s.way, s.Value, s.read, fun c => s.value (part c)⟩

/-- The reader reads all of these settings. -/
def AllHold (ss : List (Setting σ)) (reader : Json → Option σ) (default : σ) : Prop :=
  ∀ j c, reader j = some c → ∀ s ∈ ss, s.Holds default j c

variable {names : List String} {name : String} {least : Nat} {j : Json}
  {fields : List (String × Json)}

/-- A field that was read holds the value said, or the default where nothing is said. -/
theorem holds_field {α : Type} {read : Json → Option α} {value : σ → α} {default c : σ}
    (hf : j.fields? names least = some fields)
    (h : Json.optional? fields name (value default) read = some (value c)) :
    (field names name read value).Holds default j c := by
  obtain rfl := Json.eq_named_of_fields? hf
  have hfound : j.found? (field names name read value).way = (j.named names).lookup name := by
    simp [field, found?]
  unfold Holds
  rw [hfound]
  unfold Json.optional? at h
  cases hl : (j.named names).lookup name with
  | none =>
    rw [hl] at h
    exact (Option.some.inj h).symm
  | some v =>
    rw [hl] at h
    exact h

/-- A setting has one value only. -/
theorem Holds.value_eq {s : Setting σ} {default c d : σ} (hc : s.Holds default j c)
    (hd : s.Holds default j d) : s.value c = s.value d := by
  unfold Holds at hc hd
  cases hf : j.found? s.way with
  | some v =>
    rw [hf] at hc hd
    exact Option.some.inj (hc.symm.trans hd)
  | none =>
    rw [hf] at hc hd
    exact hc.trans hd.symm

/-- Settings of a part hold under its name. -/
theorem holds_under {ss : List (Setting σ)} {reader : Json → Option σ} {part : τ → σ}
    {default c : τ} (hss : AllHold ss reader (part default))
    (hf : j.fields? names least = some fields)
    (h : Json.optional? fields name (part default) reader = some (part c)) :
    ∀ s ∈ ss.map (under names name part), s.Holds default j c := by
  obtain rfl := Json.eq_named_of_fields? hf
  refine List.forall_mem_map.mpr fun s hs => ?_
  unfold Json.optional? at h
  unfold Holds
  change match ((j.named names).lookup name).bind (found? s.way) with
    | some v => s.read v = some (s.value (part c))
    | none => s.value (part c) = s.value (part default)
  cases hl : (j.named names).lookup name with
  | none =>
    rw [hl] at h
    exact congrArg s.value (Option.some.inj h).symm
  | some v =>
    rw [hl] at h
    exact hss v (part c) h s hs

end Setting

namespace TableSetting

variable {σ τ : Type}

/-- The keys that lead to the table. -/
def keys (t : TableSetting σ) : List String := t.way.map Prod.snd

/-- A table of a part of a structure. -/
def under (names : List String) (name : String) (part : τ → σ) (t : TableSetting σ) :
    TableSetting τ :=
  ⟨(names, name) :: t.way, fun c => t.value (part c)⟩

/-- The table as a setting like any other. -/
def toSetting (t : TableSetting σ) : Setting σ := ⟨t.way, Table String String, Json.table?, t.value⟩

theorem map_under (names : List String) (name : String) (part : τ → σ)
    (ts : List (TableSetting σ)) :
    (ts.map (under names name part)).map toSetting =
      (ts.map toSetting).map (Setting.under names name part) := by
  simp only [List.map_map]
  rfl

end TableSetting

open Setting (AllHold field under holds_field holds_under)

variable {σ τ : Type}

theorem Setting.AllHold.of_subset {ss rs : List (Setting σ)} {reader : Json → Option σ}
    {default : σ} (h : AllHold ss reader default) (hr : rs ⊆ ss) : AllHold rs reader default :=
  fun j c hj s hs => h j c hj s (hr hs)

/-! ## The settings of each part -/

namespace CrawlSettings

/-- The names of the fields. -/
def names : List String :=
  ["roots", "legacy_roots", "collections", "file_filter", "directory_filter", "persist",
    "checkpoint_path"]

/-- The settings of the wildcards for the names of files. -/
def fileLeaves : List (Setting (List String × List String)) :=
  [field ["include", "exclude"] "include" (Json.list? Json.string?) Prod.fst,
    field ["include", "exclude"] "exclude" (Json.list? Json.string?) Prod.snd]

/-- The settings of the wildcards for the names of directories. -/
def directoryLeaves : List (Setting (List String)) :=
  [field ["exclude"] "exclude" (Json.list? Json.string?) id]

/-- The settings of a crawl. -/
def leaves : List (Setting CrawlSettings) :=
  [field names "roots" (Json.list? Path.ofJson?) roots,
    field names "legacy_roots" (Json.list? Path.ofJson?) legacyRoots,
    field names "collections" (Json.list? Path.ofJson?) collections,
    field names "persist" Json.bool? persist,
    field names "checkpoint_path" (Json.nullable? Path.ofJson?) checkpointPath] ++
  fileLeaves.map (under names "file_filter" fun c => (c.includedFiles, c.excludedFiles)) ++
  directoryLeaves.map (under names "directory_filter" excludedDirectories)

theorem holds_fileLeaves : AllHold fileLeaves filesOfJson? ([], []) := by
  intro j c h
  obtain ⟨fields, hf, h⟩ := Option.bind_eq_some_iff.mp h
  obtain ⟨included, hi, h⟩ := Option.bind_eq_some_iff.mp h
  obtain ⟨excluded, he, h⟩ := Option.bind_eq_some_iff.mp h
  obtain rfl := Option.some.inj h
  simp only [fileLeaves, List.forall_mem_cons, List.not_mem_nil, false_imp_iff, implies_true,
    and_true]
  exact ⟨holds_field hf hi, holds_field hf he⟩

theorem holds_directoryLeaves : AllHold directoryLeaves directoriesOfJson? [] := by
  intro j c h
  obtain ⟨fields, hf, h⟩ := Option.bind_eq_some_iff.mp h
  exact List.forall_mem_singleton.mpr (holds_field hf h)

theorem holds_leaves : AllHold leaves ofJson? Config.default.crawl := by
  intro j c h
  obtain ⟨fields, hf, h⟩ := Option.bind_eq_some_iff.mp h
  obtain ⟨files, hfiles, h⟩ := Option.bind_eq_some_iff.mp h
  obtain ⟨roots, hroots, h⟩ := Option.bind_eq_some_iff.mp h
  obtain ⟨legacyRoots, hlegacy, h⟩ := Option.bind_eq_some_iff.mp h
  obtain ⟨collections, hcollections, h⟩ := Option.bind_eq_some_iff.mp h
  obtain ⟨directories, hdirectories, h⟩ := Option.bind_eq_some_iff.mp h
  obtain ⟨persist, hpersist, h⟩ := Option.bind_eq_some_iff.mp h
  obtain ⟨path, hpath, h⟩ := Option.bind_eq_some_iff.mp h
  obtain rfl := Option.some.inj h
  refine List.forall_mem_append.mpr ⟨List.forall_mem_append.mpr ⟨?_, ?_⟩, ?_⟩
  · simp only [List.forall_mem_cons, List.not_mem_nil, false_imp_iff, implies_true, and_true]
    exact ⟨holds_field hf hroots, holds_field hf hlegacy, holds_field hf hcollections,
      holds_field hf hpersist, holds_field hf hpath⟩
  · exact holds_under holds_fileLeaves hf hfiles
  · exact holds_under holds_directoryLeaves hf hdirectories

end CrawlSettings

namespace PolicySettings

/-- The names of the fields. -/
def names : List String :=
  ["object_types", "required_fields", "reference_types", "non_primary_members", "namespaces"]

/-- The settings that are no tables. -/
def leaves : List (Setting PolicySettings) :=
  [field names "object_types" (Json.list? ObjectTypeSettings.ofJson?) objectTypes,
    field names "required_fields" (Json.list? Json.string?) requiredFields,
    field names "non_primary_members" (Json.list? Json.string?) nonPrimaryMembers]

/-- The settings that are tables. -/
def tables : List (TableSetting PolicySettings) :=
  [⟨[(names, "reference_types")], referenceTypes⟩, ⟨[(names, "namespaces")], namespaces⟩]

theorem holds_settings :
    AllHold (leaves ++ tables.map TableSetting.toSetting) ofJson? Config.default.policy := by
  intro j c h
  obtain ⟨fields, hf, h⟩ := Option.bind_eq_some_iff.mp h
  obtain ⟨objectTypes, hobjectTypes, h⟩ := Option.bind_eq_some_iff.mp h
  obtain ⟨requiredFields, hrequired, h⟩ := Option.bind_eq_some_iff.mp h
  obtain ⟨referenceTypes, hreferenceTypes, h⟩ := Option.bind_eq_some_iff.mp h
  obtain ⟨members, hmembers, h⟩ := Option.bind_eq_some_iff.mp h
  obtain ⟨namespaces, hnamespaces, h⟩ := Option.bind_eq_some_iff.mp h
  obtain rfl := Option.some.inj h
  simp only [leaves, tables, List.map_cons, List.map_nil, List.cons_append, List.nil_append,
    List.forall_mem_cons, List.not_mem_nil, false_imp_iff, implies_true, and_true]
  exact ⟨holds_field hf hobjectTypes, holds_field hf hrequired, holds_field hf hmembers,
    holds_field hf hreferenceTypes, holds_field hf hnamespaces⟩

end PolicySettings

namespace LegacySettings

/-- The names of the fields. -/
def names : List String :=
  ["object_type", "lid_prefix", "lid_keywords", "title_keyword", "version", "reference_keywords",
    "required_fields"]

/-- The settings that are no tables. -/
def leaves : List (Setting LegacySettings) :=
  [field names "object_type" Json.string? objectType,
    field names "lid_prefix" Json.string? lidPrefix,
    field names "lid_keywords" (Json.list? Json.string?) lidKeywords,
    field names "title_keyword" Json.string? titleKeyword,
    field names "version" Json.string? version,
    field names "required_fields" (Json.list? Json.string?) requiredFields]

/-- The settings that are tables. -/
def tables : List (TableSetting LegacySettings) :=
  [⟨[(names, "reference_keywords")], referenceKeywords⟩]

theorem holds_settings :
    AllHold (leaves ++ tables.map TableSetting.toSetting) ofJson? Config.default.legacy := by
  intro j c h
  obtain ⟨fields, hf, h⟩ := Option.bind_eq_some_iff.mp h
  obtain ⟨objectType, hobjectType, h⟩ := Option.bind_eq_some_iff.mp h
  obtain ⟨lidPrefix, hlidPrefix, h⟩ := Option.bind_eq_some_iff.mp h
  obtain ⟨lidKeywords, hlidKeywords, h⟩ := Option.bind_eq_some_iff.mp h
  obtain ⟨titleKeyword, htitleKeyword, h⟩ := Option.bind_eq_some_iff.mp h
  obtain ⟨version, hversion, h⟩ := Option.bind_eq_some_iff.mp h
  obtain ⟨referenceKeywords, hreferenceKeywords, h⟩ := Option.bind_eq_some_iff.mp h
  obtain ⟨requiredFields, hrequired, h⟩ := Option.bind_eq_some_iff.mp h
  obtain rfl := Option.some.inj h
  simp only [leaves, tables, List.map_cons, List.map_nil, List.cons_append, List.nil_append,
    List.forall_mem_cons, List.not_mem_nil, false_imp_iff, implies_true, and_true]
  exact ⟨holds_field hf hobjectType, holds_field hf hlidPrefix, holds_field hf hlidKeywords,
    holds_field hf htitleKeyword, holds_field hf hversion, holds_field hf hrequired,
    holds_field hf hreferenceKeywords⟩

end LegacySettings

namespace Category

/-- The one setting of the kinds of data. -/
def leaves : List (Setting (List Category)) :=
  [field ["categories"] "categories" (Json.list? ofJson?) id]

theorem holds_leaves : AllHold leaves listOfJson? Config.default.categories := by
  intro j c h
  obtain ⟨fields, hf, h⟩ := Option.bind_eq_some_iff.mp h
  exact List.forall_mem_singleton.mpr (holds_field hf h)

end Category

namespace ReportSettings

/-- The settings of a report. -/
def leaves : List (Setting ReportSettings) :=
  [field ["level", "format"] "level" Severity.ofJson? level,
    field ["level", "format"] "format" (fun j => j.word?.bind ReportFormat.ofName?) format]

theorem holds_leaves : AllHold leaves ofJson? Config.default.report := by
  intro j c h
  obtain ⟨fields, hf, h⟩ := Option.bind_eq_some_iff.mp h
  obtain ⟨level, hlevel, h⟩ := Option.bind_eq_some_iff.mp h
  obtain ⟨format, hformat, h⟩ := Option.bind_eq_some_iff.mp h
  obtain rfl := Option.some.inj h
  simp only [leaves, List.forall_mem_cons, List.not_mem_nil, false_imp_iff, implies_true, and_true]
  exact ⟨holds_field hf hlevel, holds_field hf hformat⟩

end ReportSettings

namespace ChecksumSettings

/-- The settings of the list of checksums. -/
def leaves : List (Setting ChecksumSettings) :=
  [field ["manifest", "base_path"] "manifest" (Json.nullable? Path.ofJson?) manifest,
    field ["manifest", "base_path"] "base_path" (Json.nullable? Path.ofJson?) basePath]

theorem holds_leaves : AllHold leaves ofJson? Config.default.checksums := by
  intro j c h
  obtain ⟨fields, hf, h⟩ := Option.bind_eq_some_iff.mp h
  obtain ⟨manifest, hmanifest, h⟩ := Option.bind_eq_some_iff.mp h
  obtain ⟨basePath, hbasePath, h⟩ := Option.bind_eq_some_iff.mp h
  obtain rfl := Option.some.inj h
  simp only [leaves, List.forall_mem_cons, List.not_mem_nil, false_imp_iff, implies_true, and_true]
  exact ⟨holds_field hf hmanifest, holds_field hf hbasePath⟩

end ChecksumSettings

/-! ## All settings -/

namespace Config

/-- The names of the parts. -/
def names : List String :=
  ["crawl", "policy", "legacy", "integrity", "report", "checksums", "daemon"]

/-- The one setting of the time between two crawls. -/
def intervalLeaves : List (Setting Nat) :=
  [field ["interval_secs"] "interval_secs" (Json.natBelow? secondsBound) id]

/-- All settings that are no tables. -/
def leaves : List (Setting Config) :=
  CrawlSettings.leaves.map (under names "crawl" crawl) ++
  PolicySettings.leaves.map (under names "policy" policy) ++
  LegacySettings.leaves.map (under names "legacy" legacy) ++
  Category.leaves.map (under names "integrity" categories) ++
  ReportSettings.leaves.map (under names "report" report) ++
  ChecksumSettings.leaves.map (under names "checksums" checksums) ++
  intervalLeaves.map (under names "daemon" intervalSeconds)

/-- All settings that are tables. -/
def tables : List (TableSetting Config) :=
  PolicySettings.tables.map (TableSetting.under names "policy" policy) ++
  LegacySettings.tables.map (TableSetting.under names "legacy" legacy)

theorem holds_intervalLeaves : AllHold intervalLeaves intervalOfJson? default.intervalSeconds := by
  intro j c h
  obtain ⟨fields, hf, h⟩ := Option.bind_eq_some_iff.mp h
  exact List.forall_mem_singleton.mpr (holds_field hf h)

theorem holds_settings :
    AllHold (leaves ++ tables.map TableSetting.toSetting) ofJson? default := by
  intro j c h
  obtain ⟨fields, hf, h⟩ := Option.bind_eq_some_iff.mp h
  obtain ⟨crawl, hcrawl, h⟩ := Option.bind_eq_some_iff.mp h
  obtain ⟨policy, hpolicy, h⟩ := Option.bind_eq_some_iff.mp h
  obtain ⟨legacy, hlegacy, h⟩ := Option.bind_eq_some_iff.mp h
  obtain ⟨categories, hcategories, h⟩ := Option.bind_eq_some_iff.mp h
  obtain ⟨report, hreport, h⟩ := Option.bind_eq_some_iff.mp h
  obtain ⟨checksums, hchecksums, h⟩ := Option.bind_eq_some_iff.mp h
  obtain ⟨seconds, hseconds, h⟩ := Option.bind_eq_some_iff.mp h
  obtain rfl := Option.some.inj h
  simp only [leaves, tables, List.map_append, TableSetting.map_under, List.forall_mem_append]
  have left {σ : Type} (ss rs : List (Setting σ)) : ss ⊆ ss ++ rs := List.subset_append_left ss rs
  have right {σ : Type} (ss rs : List (Setting σ)) : rs ⊆ ss ++ rs := List.subset_append_right ss rs
  exact ⟨⟨⟨⟨⟨⟨⟨holds_under CrawlSettings.holds_leaves hf hcrawl,
    holds_under (PolicySettings.holds_settings.of_subset (left _ _)) hf hpolicy⟩,
    holds_under (LegacySettings.holds_settings.of_subset (left _ _)) hf hlegacy⟩,
    holds_under Category.holds_leaves hf hcategories⟩,
    holds_under ReportSettings.holds_leaves hf hreport⟩,
    holds_under ChecksumSettings.holds_leaves hf hchecksums⟩,
    holds_under holds_intervalLeaves hf hseconds⟩,
    holds_under (PolicySettings.holds_settings.of_subset (right _ _)) hf hpolicy,
    holds_under (LegacySettings.holds_settings.of_subset (right _ _)) hf hlegacy⟩

/-- These are all settings there are. -/
theorem eq_of_settings {c d : Config} (hl : ∀ s ∈ leaves, s.value c = s.value d)
    (ht : ∀ t ∈ tables, t.value c = t.value d) : c = d := by
  simp only [leaves, CrawlSettings.leaves, CrawlSettings.fileLeaves, CrawlSettings.directoryLeaves,
    PolicySettings.leaves, LegacySettings.leaves, Category.leaves, ReportSettings.leaves,
    ChecksumSettings.leaves, intervalLeaves, List.map_append, List.map_cons, List.map_nil,
    List.forall_mem_append, List.forall_mem_cons, List.not_mem_nil, false_imp_iff, implies_true,
    and_true] at hl
  simp only [tables, PolicySettings.tables, LegacySettings.tables, List.map_cons, List.map_nil,
    List.forall_mem_append, List.forall_mem_cons, List.not_mem_nil, false_imp_iff,
    implies_true, and_true] at ht
  obtain ⟨⟨⟩, ⟨⟩, ⟨⟩, categories, ⟨⟩, ⟨⟩, seconds⟩ := c
  obtain ⟨⟨⟩, ⟨⟩, ⟨⟩, categories', ⟨⟩, ⟨⟩, seconds'⟩ := d
  simp_all [under, field, TableSetting.under]

/-- Settings that are no tables are not read from tables. -/
theorem refusesTables_leaves : ∀ s ∈ leaves, s.RefusesTables := by
  -- A word is read from a table, but of `null`.
  have word (fields : List (String × Json)) (h : ∀ k, fields.lookup k ≠ some .null) :
      (Json.obj fields).word? = none := by
    unfold Json.word?
    split
    · rename_i he
      cases he
    · rename_i k he
      cases he
      exact absurd (by simp) (h k)
    · rfl
  simp only [leaves, CrawlSettings.leaves, CrawlSettings.fileLeaves, CrawlSettings.directoryLeaves,
    PolicySettings.leaves, LegacySettings.leaves, Category.leaves, ReportSettings.leaves,
    ChecksumSettings.leaves, intervalLeaves, List.map_append, List.map_cons, List.map_nil,
    List.forall_mem_append, List.forall_mem_cons, List.not_mem_nil, false_imp_iff, implies_true,
    and_true]
  and_intros
  all_goals
    intro fields h
    first
    | rfl
    | exact congrArg (Option.bind · _) (word fields h)

/-- Settings that are no tables are read from what the defaults are written as. -/
theorem exists_default_leaves : ∀ s ∈ leaves, ∃ d, default.toJson.at? s.keys = some d ∧
    ¬d.IsTable ∧ s.read d = some (s.value default) := by
  simp only [leaves, CrawlSettings.leaves, CrawlSettings.fileLeaves, CrawlSettings.directoryLeaves,
    PolicySettings.leaves, LegacySettings.leaves, Category.leaves, ReportSettings.leaves,
    ChecksumSettings.leaves, intervalLeaves, List.map_append, List.map_cons, List.map_nil,
    List.forall_mem_append, List.forall_mem_cons, List.not_mem_nil, false_imp_iff, implies_true,
    and_true]
  and_intros
  all_goals refine ⟨_, rfl, of_decide_eq_false rfl, ?_⟩
  all_goals
    simp only [under, field]
    decide

/-- The tables of the defaults are rendered where they are read. -/
theorem at?_default_tables : ∀ t ∈ tables,
    default.toJson.at? t.keys = some (Table.toJson (t.value default)) := by
  simp only [tables, PolicySettings.tables, LegacySettings.tables, List.map_cons, List.map_nil,
    List.forall_mem_append, List.forall_mem_cons, List.not_mem_nil, false_imp_iff,
    implies_true, and_true]
  and_intros
  all_goals rfl

end Config

end ArchiveLabels
