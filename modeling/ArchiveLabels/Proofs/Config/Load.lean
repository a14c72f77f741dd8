import ArchiveLabels.Proofs.Config.Environment
import ArchiveLabels.Proofs.Config.Layers
import ArchiveLabels.Proofs.FileSystem.Reaches
import ArchiveLabels.Proofs.Toml.Tables
import Mathlib.Data.List.Find

/-!
# Loading settings

`Config.load_layered` : settings that are loaded come from the environment, else from the file that
is asked for or else the one of the current directory, else from the user's own file, and else are
the defaults. Only what is looked at counts : if a file is asked for, the one of the current
directory may say anything or not be there.
-/

namespace ArchiveLabels.Config

open Json (at? Throughout Proper)

variable {fs gs : FileSystem} {environment : List (String × String)} {asked : Option Path}
  {p : Path} {place : List String} {j : Json} {c : Config}

/-! ## What a file gives -/

/-- Settings read from a file name no key twice. -/
theorem throughout_readSettings (h : readSettings fs p = .ok j) : j.Throughout Proper := by
  unfold readSettings at h
  split at h
  · obtain rfl := Except.ok.inj h
    exact Json.throughout_proper_empty
  · split at h
    · rename_i hj
      obtain rfl := Except.ok.inj h
      obtain ⟨text, -, hparse⟩ := Option.bind_eq_some_iff.mp hj
      exact Toml.throughout_parse? hparse
    · cases h

theorem throughout_layer {p : Option Path} (h : layer fs p = .ok j) : j.Throughout Proper := by
  unfold layer at h
  split at h
  · exact throughout_readSettings h
  · obtain rfl := Except.ok.inj h
    exact Json.throughout_proper_empty

/-- What is loaded is read from all layers laid over each other. -/
theorem exists_layers (h : load fs environment asked = .ok c) :
    ∃ user file, layer fs (userFile? environment) = .ok user ∧
      layer fs (some (asked.getD localFile)) = .ok file ∧
      ofJson? (overlaid user file (Environment.settings environment)) = some c := by
  unfold load at h
  split at h
  · cases h
  unfold layers at h
  cases huser : layer fs (userFile? environment) with
  | error e =>
    rw [huser] at h
    cases h
  | ok user =>
    cases hfile : layer fs (some (asked.getD localFile)) with
    | error e =>
      rw [huser, hfile] at h
      cases h
    | ok file =>
      refine ⟨user, file, rfl, rfl, ?_⟩
      rw [huser, hfile] at h
      dsimp only [bind, Except.bind, pure, Except.pure] at h
      split at h
      · cases h
      · rename_i c' hc
        cases hv : c'.validate with
        | error e =>
          rw [hv] at h
          cases h
        | ok u =>
          rw [hv] at h
          exact hc.trans (congrArg some (Except.ok.inj h))

/-! ## Where files are looked for -/

/-- The paths at which a file of settings may be, the first one in front. -/
def candidates (fs : FileSystem) (p : Path) : List Path :=
  (if p.isAbsolute then [fs.workingDirectory]
    else FileSystem.ancestors (fs.workingDirectory.text.length + 1) fs.workingDirectory).map
      fun d => Path.join d p

/-- There is something other than a directory where the path leads. -/
def isSettings (fs : FileSystem) (p : Path) : Bool := fs.has p && !fs.hasDirectory p

/-- The paths that are looked at for a file of settings : the path itself, and what it may stand for
up to the first file. -/
def searched (fs : FileSystem) (p : Path) : List Path :=
  p :: (candidates fs p).take ((candidates fs p).findIdx (isSettings fs) + 1)

/-- The paths that are looked at for files of settings if one is asked for. -/
def consulted (fs : FileSystem) (environment : List (String × String)) (p : Path) : List Path :=
  searched fs p ++ (userFile? environment).toList.flatMap (searched fs)

/-- What is found depends on what is looked at until then. -/
theorem find?_congr_take {α : Type} {f g : α → Bool} {as : List α}
    (h : ∀ a ∈ as.take (as.findIdx f + 1), g a = f a) : as.find? g = as.find? f := by
  induction as with
  | nil => rfl
  | cons a as ih =>
    rw [List.findIdx_cons] at h
    have ha : g a = f a := h a (by rw [List.take_succ_cons]; exact List.mem_cons_self)
    rw [List.find?_cons, List.find?_cons, ha]
    cases hf : f a with
    | true => rfl
    | false =>
      refine ih fun b hb => h b ?_
      rw [hf, cond_false, List.take_succ_cons]
      exact List.mem_cons_of_mem a hb

theorem mem_take_of_find? {α : Type} {f : α → Bool} {as : List α} {a : α}
    (h : as.find? f = some a) : a ∈ as.take (as.findIdx f + 1) := by
  induction as with
  | nil => cases h
  | cons b as ih =>
    rw [List.find?_cons] at h
    rw [List.findIdx_cons, List.take_succ_cons]
    cases hf : f b with
    | true =>
      rw [hf] at h
      exact Option.some.inj h ▸ List.mem_cons_self
    | false =>
      rw [hf] at h
      exact List.mem_cons_of_mem b (ih h)

section Elsewhere

variable (hh : gs.here = fs.here)

include hh

/-- The nearest file is the same as long as the places searched look the same. -/
theorem nearestFile?_congr (h : ∀ q ∈ searched fs p, gs.form? q = fs.form? q) :
    nearestFile? gs p = nearestFile? fs p := by
  have hw : gs.workingDirectory = fs.workingDirectory := by
    rw [FileSystem.workingDirectory, hh, FileSystem.workingDirectory]
  have hcandidates : candidates gs p = candidates fs p := by rw [candidates, hw, candidates]
  change (candidates gs p).find? (isSettings gs) = (candidates fs p).find? (isSettings fs)
  rw [hcandidates]
  refine find?_congr_take fun q hq => ?_
  have hform := h q (List.mem_cons_of_mem p hq)
  rw [isSettings, FileSystem.has_congr hform, FileSystem.hasDirectory_congr hform, isSettings]

/-- A layer does not change as long as the places searched look the same. -/
theorem layer_congr (h : ∀ q ∈ searched fs p, gs.form? q = fs.form? q) :
    layer gs (some p) = layer fs (some p) := by
  have hhas := FileSystem.has_congr (h p List.mem_cons_self)
  have hread : readSettings gs p = readSettings fs p := by
    unfold readSettings
    rw [nearestFile?_congr hh h]
    split
    · rfl
    · rename_i q hq
      rw [FileSystem.readText_congr (h q (List.mem_cons_of_mem p (mem_take_of_find? hq)))]
  unfold layer
  simp only [Option.filter_some, hhas]
  split <;> simp_all

/-- What is loaded depends on what is seen at the paths that are looked for. -/
theorem load_congr (h : ∀ q ∈ consulted fs environment p, gs.form? q = fs.form? q) :
    load gs environment (some p) = load fs environment (some p) := by
  have hp : ∀ q ∈ searched fs p, gs.form? q = fs.form? q := fun q hq =>
    h q (List.mem_append_left _ hq)
  have huser : layer gs (userFile? environment) = layer fs (userFile? environment) := by
    cases hu : userFile? environment with
    | none => rfl
    | some u =>
      refine layer_congr hh fun q hq => h q (List.mem_append_right _ ?_)
      rw [hu]
      exact List.mem_flatMap.mpr ⟨u, List.mem_singleton_self u, hq⟩
  have hlayers : layers gs environment (some p) = layers fs environment (some p) := by
    unfold layers
    rw [huser, Option.getD_some, layer_congr hh hp]
  have hhas := FileSystem.has_congr (hp p List.mem_cons_self)
  unfold load
  simp only [Option.filter_some, hhas, hlayers]

end Elsewhere

/-! ## All layers -/

/-- Of the environment, the file that is asked for or else the one of the current directory, the
user's own file and the defaults, the first that has something to say of a setting counts, and a
file that no path looked for leads to counts for nothing, be it the one of the current directory. -/
theorem load_layered (h : load fs environment asked = .ok c) :
    ∃ user file, layer fs (userFile? environment) = .ok user ∧
      layer fs (some (asked.getD localFile)) = .ok file ∧
      Layered user file (Environment.settings environment) c ∧
      ∀ p place gs, asked = some p → FileSystem.DiffersOnlyAt place fs gs →
        (∀ q ∈ consulted fs environment p,
          fs.reaches place q = false ∧ gs.reaches place q = false) →
        load gs environment asked = .ok c := by
  obtain ⟨user, file, huser, hfile, hc⟩ := exists_layers h
  refine ⟨user, file, huser, hfile, layered_of_ofJson? (throughout_layer huser)
    (throughout_layer hfile) (Environment.throughout_settings environment) hc, ?_⟩
  rintro p place gs rfl hd hq
  rw [load_congr hd.here fun q hm => hd.form?_eq (hq q hm).1 (hq q hm).2, h]

/-! ### A file that is asked for, one that is not, and variables -/

/-- The files of a site : its settings, those of a user, and a file of the given text in the current
directory. -/
def siteFiles (text : String) : FileSystem where
  root := .entry "harvest.toml" (.file (Text.Utf8.encode text) .epoch)
    (.entry "site.toml" (.file (Text.Utf8.encode
      "[report]\nlevel = \"warning\"\n[legacy]\nlid_keywords = [\"PRODUCT\"]\n") .epoch)
      (.entry "x" (.directory (.entry "harvest" (.directory (.entry "config.toml"
        (.file (Text.Utf8.encode
          "[policy.namespaces]\ngeom = \"g\"\n[report]\nlevel = \"error\"\nformat = \"json\"\n")
          .epoch) .empty)) .empty)) .empty))
  here := []
  clock := .epoch
  printed := ""

/-- Variables that say where the user's settings are and how reports are written. -/
def siteEnvironment : List (String × String) :=
  [("XDG_CONFIG_HOME", "/x"), ("HARVEST_REPORT__FORMAT", "text")]

/-- The settings of the site : the format is that of the variable, the level and the keywords are
those of the site's file, and the user's namespace stands beside the one of the defaults. -/
def siteConfig : Config :=
  { default with
    policy := { default.policy with
      namespaces := [("geom", "g"), ("pds", "http://pds.nasa.gov/pds4/pds/v1")] }
    legacy := { default.legacy with lidKeywords := ["PRODUCT"] }
    report := ⟨.warning, .text⟩ }

theorem differsOnlyAt_siteFiles (first second : String) :
    (siteFiles first).DiffersOnlyAt ["harvest.toml"] (siteFiles second) :=
  have hputs : FileSystem.Puts (siteFiles first) (siteFiles second) ["harvest.toml"]
      (Text.Utf8.encode second) .epoch :=
    FileSystem.puts_change rfl rfl rfl rfl (.inr ⟨_, _, rfl⟩)
  hputs.differsOnlyAt

set_option maxRecDepth 100000 in
/-- The settings of the site are the same whatever the file in the current directory says. -/
theorem load_layered_site :
    ∃ user file, layer (siteFiles "[legacy]\n") (userFile? siteEnvironment) = .ok user ∧
      layer (siteFiles "[legacy]\n") (some ⟨"site.toml"⟩) = .ok file ∧
      Layered user file (Environment.settings siteEnvironment) siteConfig ∧
      load (siteFiles "report = 1\n") siteEnvironment (some ⟨"site.toml"⟩) = .ok siteConfig := by
  have hload : (load (siteFiles "[legacy]\n") siteEnvironment (some ⟨"site.toml"⟩)).toOption =
      some siteConfig := by
    decide +kernel
  have hreaches : ∀ q ∈ consulted (siteFiles "[legacy]\n") siteEnvironment ⟨"site.toml"⟩,
      (siteFiles "[legacy]\n").reaches ["harvest.toml"] q = false ∧
        (siteFiles "report = 1\n").reaches ["harvest.toml"] q = false := by
    decide +kernel
  cases h : load (siteFiles "[legacy]\n") siteEnvironment (some ⟨"site.toml"⟩) with
  | error e =>
    rw [h] at hload
    cases hload
  | ok c =>
    rw [h] at hload
    obtain rfl := Option.some.inj hload
    obtain ⟨user, file, huser, hfile, hlayered, hload⟩ := load_layered h
    exact ⟨user, file, huser, hfile, hlayered,
      hload _ _ _ rfl (differsOnlyAt_siteFiles _ _) hreaches⟩

/-! ### A table that is taken away -/

/-- A user's settings, and a file in the current directory that has a number for a table. -/
def blockedFiles : FileSystem where
  root := .entry "harvest.toml" (.file (Text.Utf8.encode "report = 1\n") .epoch)
    (.entry "x" (.directory (.entry "harvest" (.directory (.entry "config.toml"
      (.file (Text.Utf8.encode "[report]\nlevel = \"error\"\n") .epoch) .empty)) .empty)) .empty)
  here := []
  clock := .epoch
  printed := ""

/-- Variables that say where the user's settings are and give another setting of the table. -/
def blockedEnvironment : List (String × String) :=
  [("XDG_CONFIG_HOME", "/x"), ("HARVEST_REPORT__FORMAT", "json")]

/-- The level of a report is one of the settings. -/
theorem level_mem_leaves :
    Setting.under names "report" report
      (.field ["level", "format"] "level" Severity.ofJson? ReportSettings.level) ∈ leaves :=
  List.mem_append_left _ (List.mem_append_left _ (List.mem_append_right _
    (List.mem_map_of_mem List.mem_cons_self)))

set_option maxRecDepth 100000 in
/-- A setting may have its default although a layer has a value for it : the only layer in which
keys lead to a level is that of the user, but the level is the default. -/
theorem load_ne_first :
    ∃ user file c, layer blockedFiles (userFile? blockedEnvironment) = .ok user ∧
      layer blockedFiles (some localFile) = .ok file ∧
      load blockedFiles blockedEnvironment none = .ok c ∧
      ¬∀ s ∈ leaves, ∀ v,
        [Environment.settings blockedEnvironment, file, user].findSome? (at? s.keys) = some v →
          s.read v = some (s.value c) := by
  have hload : (load blockedFiles blockedEnvironment none).toOption.map (·.report.level) =
      some .info := by
    decide +kernel
  have huser : ((layer blockedFiles (userFile? blockedEnvironment)).toOption.bind
      (at? ["report", "level"])).bind Json.string? = some "error" := by
    decide +kernel
  have hfile : (layer blockedFiles (some localFile)).toOption.map
      (fun j => (j.at? ["report", "level"]).isNone) = some true := by
    decide +kernel
  have henvironment :
      ((Environment.settings blockedEnvironment).at? ["report", "level"]).isNone := by
    decide +kernel
  cases h : load blockedFiles blockedEnvironment none with
  | error e =>
    rw [h] at hload
    cases hload
  | ok c =>
    obtain ⟨user, file, hu, hf, -⟩ := exists_layers h
    refine ⟨user, file, c, hu, hf, rfl, fun hfirst => ?_⟩
    rw [h] at hload
    rw [hu] at huser
    rw [show layer blockedFiles (some localFile) = .ok file from hf] at hfile
    have hlevel : c.report.level = .info := Option.some.inj hload
    obtain ⟨v, hv, hs⟩ := Option.bind_eq_some_iff.mp huser
    have hv : user.at? ["report", "level"] = some v := hv
    have hfile : file.at? ["report", "level"] = none :=
      Option.isNone_iff_eq_none.mp (Option.some.inj hfile)
    have hread := hfirst _ level_mem_leaves v (by
      change [Environment.settings blockedEnvironment, file, user].findSome?
        (at? ["report", "level"]) = some v
      simp [Option.isNone_iff_eq_none.mp henvironment, hfile, hv])
    obtain rfl : v = .str "error" := by
      cases v with
      | str s => exact congrArg Json.str (Option.some.inj hs)
      | _ => cases hs
    have hread : Severity.ofJson? (.str "error") = some c.report.level := hread
    rw [hlevel] at hread
    exact absurd hread (by decide)

end ArchiveLabels.Config
