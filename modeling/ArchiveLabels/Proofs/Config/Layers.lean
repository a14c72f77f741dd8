import ArchiveLabels.Config.Load
import ArchiveLabels.Proofs.Config.Settings

/-!
# Which layer a setting comes from

The settings of a user, of a file and of the environment are laid over the defaults in this order.
`Config.Layered` says what comes of it : a setting has the value of the highest layer that has
something to say of it, and tables are combined key by key.

A layer may say that there is no such setting, by having something other than a table where the
table around the setting should stand. It then takes away what lower layers say, and the setting has
its default, whatever they say, unless it stands in a list that is written in place of the table.

There is one configuration only that the layers come to (`Config.Layered.unique`).
-/

namespace ArchiveLabels.Config

open Json (saying? at? Saying Decides Throughout NoKeyTwice Proper)

variable {user file env : Json} {c : Config} {ks : List String}

/-- All layers laid over each other. -/
def overlaid (user file env : Json) : Json := overlay [default.toJson, user, file, env]

/-- What the highest layer says that has something to say of what keys lead to. -/
def said? (user file env : Json) (ks : List String) : Option Saying :=
  [env, file, user].findSome? (saying? ks)

/-- What settings there are with the settings of a user, of a file and of the environment. -/
structure Layered (user file env : Json) (c : Config) : Prop where
  /-- A setting has the value that the highest layer gives it. -/
  given : ∀ s ∈ leaves, ∀ v, said? user file env s.keys = some (.value v) →
    s.read v = some (s.value c)
  /-- A setting of which no layer says anything has its default. -/
  unsaid : ∀ s ∈ leaves, said? user file env s.keys = none → s.value c = s.value default
  /-- A setting that the highest layer takes away has its default, unless a list stands in place of
  a table around it. -/
  blocked : ∀ s ∈ leaves ++ tables.map TableSetting.toSetting,
    said? user file env s.keys = some .blocked →
    (∀ ks items, ks <+: s.keys → (overlaid user file env).at? ks ≠ some (.arr items)) →
    s.value c = s.value default
  /-- A key of a setting that is a table has the value that the highest layer gives it. -/
  givenKey : ∀ t ∈ tables, ∀ k v, said? user file env (t.keys ++ [k]) = some (.value v) →
    ((t.value c).lookup k).map Json.str = some v
  /-- A key of which no layer says anything has its default. -/
  unsaidKey : ∀ t ∈ tables, ∀ k, said? user file env (t.keys ++ [k]) = none →
    (t.value c).lookup k = (t.value default).lookup k
  /-- A key that the highest layer takes away with its table is not in the table that higher layers
  give. -/
  blockedKey : ∀ t ∈ tables, ∀ k, said? user file env (t.keys ++ [k]) = some .blocked →
    (∃ fields, (overlaid user file env).at? t.keys = some (.obj fields)) →
    (t.value c).lookup k = none
  /-- Where lists are written in place of tables, settings are read from the items of the list. -/
  read : ∀ s ∈ leaves ++ tables.map TableSetting.toSetting,
    s.Holds default (overlaid user file env) c
  /-- Tables of any depth are combined key by key; any other value is taken as a whole. -/
  combined : ∀ ks, Decides (default.toJson.at? ks) (said? user file env ks)
    ((overlaid user file env).at? ks)

/-! ## Layers laid over each other -/

theorem noKeyTwice_default : default.toJson.Throughout NoKeyTwice := by
  have table {fields : List (String × Json)} (hk : (fields.map Prod.fst).Nodup)
      (hf : ∀ f ∈ fields, f.2.Throughout NoKeyTwice) : (Json.obj fields).Throughout NoKeyTwice :=
    Json.throughout_obj (Json.noKeyTwice_obj hk) fun k v hv => hf (k, v) (Table.mem_of_lookup hv)
  have flat {fields : List (String × Json)} (hk : (fields.map Prod.fst).Nodup)
      (hf : ∀ f ∈ fields, ¬f.2.IsTable) : (Json.obj fields).Throughout NoKeyTwice :=
    table hk fun f hm => Json.throughout_noKeyTwice_of_not_isTable (hf f hm)
  have strings {t : Table String String} (hk : (t.map Prod.fst).Nodup) :
      t.toJson.Throughout NoKeyTwice := by
    refine flat (by simpa [Function.comp_def] using hk) fun f hm => ?_
    obtain ⟨e, -, rfl⟩ := List.mem_map.mp hm
    exact of_decide_eq_false rfl
  refine table (by decide) ?_
  simp only [List.forall_mem_cons, List.not_mem_nil, false_imp_iff, implies_true, and_true]
  and_intros
  all_goals
    refine table (by decide) ?_
    simp only [List.forall_mem_cons, List.not_mem_nil, false_imp_iff, implies_true, and_true]
    and_intros
    all_goals
      first
      | exact strings (by decide)
      | exact flat (by decide) (by simp [Json.IsTable, Json.strings])
      | exact Json.throughout_noKeyTwice_of_not_isTable (of_decide_eq_false rfl)

/-- A setting is read from what its keys lead to. -/
theorem read_of_at? (h : ofJson? (overlaid user file env) = some c) {s : Setting Config}
    (hs : s ∈ leaves ++ tables.map TableSetting.toSetting) {v : Json}
    (hv : (overlaid user file env).at? s.keys = some v) : s.read v = some (s.value c) := by
  have hholds := holds_settings _ c h s hs
  rwa [Setting.Holds, Json.found?_of_at? hv] at hholds

/-- A setting that neither keys nor lists lead to has its default. -/
theorem eq_default_of_at? (h : ofJson? (overlaid user file env) = some c) {s : Setting Config}
    (hs : s ∈ leaves ++ tables.map TableSetting.toSetting)
    (hn : (overlaid user file env).at? s.keys = none)
    (hl : ∀ ks items, ks <+: s.keys → (overlaid user file env).at? ks ≠ some (.arr items)) :
    s.value c = s.value default := by
  have hholds := holds_settings _ c h s hs
  rwa [Setting.Holds, Json.found?_eq_none hn hl] at hholds

section Overlaid

variable (hu : user.Throughout Proper) (hf : file.Throughout Proper) (he : env.Throughout Proper)

include hu hf he

/-- Every layer that may be laid is proper. -/
theorem throughout_layers : ∀ l ∈ [user, file, env], l.Throughout Proper := by
  simpa using ⟨hu, hf, he⟩

/-- At every path the last layer that says something decides. -/
theorem decides_overlaid (ks : List String) :
    Decides (default.toJson.at? ks) (said? user file env ks) ((overlaid user file env).at? ks) := by
  have hlayers : ∀ l ∈ [user, file, env], l.Throughout NoKeyTwice := fun l hl =>
    (throughout_layers hu hf he l hl).mono fun _ h => h.noKeyTwice
  refine (Json.decides_foldl_merge hlayers (Json.merge (.obj []) default.toJson) ks).of_below ?_
  intro hsaid
  cases ks with
  | nil => cases hsaid
  | cons k ks =>
    exact Json.at?_merge_empty noKeyTwice_default k ks

theorem noKeyTwice_overlaid : (overlaid user file env).Throughout NoKeyTwice := by
  have weaken {j : Json} (h : j.Throughout Proper) : j.Throughout NoKeyTwice :=
    h.mono fun _ h => h.noKeyTwice
  have hempty : (Json.obj []).Throughout NoKeyTwice :=
    Json.throughout_empty (Json.noKeyTwice_obj List.nodup_nil)
  have huser := (hempty.merge_noKeyTwice noKeyTwice_default).merge_noKeyTwice (weaken hu)
  exact (huser.merge_noKeyTwice (weaken hf)).merge_noKeyTwice (weaken he)

/-- No layer gives `null`. -/
theorem ne_null_of_said {v : Json} (h : said? user file env ks = some (.value v)) : v ≠ .null := by
  obtain ⟨l, hl, hv⟩ := List.exists_of_findSome?_eq_some h
  have hl : l ∈ [user, file, env] := by simpa [or_comm, or_assoc, or_left_comm] using hl
  exact (throughout_layers hu hf he l hl ks v (Json.at?_eq_some_iff.mpr hv)).ne_null

/-- What is laid over each other has no table where a setting stands that is none. -/
theorem at?_ne_obj (h : ofJson? (overlaid user file env) = some c) {s : Setting Config}
    (hs : s ∈ leaves) (fields : List (String × Json)) :
    (overlaid user file env).at? s.keys ≠ some (.obj fields) := by
  intro hv
  have hread := read_of_at? h (List.mem_append_left _ hs) hv
  obtain ⟨d, hd, hdt, -⟩ := exists_default_leaves s hs
  have hnone : ∀ k, fields.lookup k ≠ some .null := by
    intro k hk
    have hdecides := decides_overlaid hu hf he (s.keys ++ [k])
    rw [Json.at?_concat hv, hk] at hdecides
    cases hsaid : said? user file env (s.keys ++ [k]) with
    | none =>
      rw [hsaid] at hdecides
      obtain ⟨gs, hgs, -⟩ := Json.at?_concat_eq_some_iff.mp (show _ = _ from hdecides).symm
      exact hdt ⟨gs, Option.some.inj (hd.symm.trans hgs)⟩
    | some said =>
      rw [hsaid] at hdecides
      cases said with
      | blocked => cases hdecides
      | value w =>
        by_cases hw : w.IsTable
        · obtain ⟨gs, hgs⟩ := hdecides.exists_of_isTable hw
          cases hgs
        · exact ne_null_of_said hu hf he hsaid
            (Option.some.inj (hdecides.eq_of_not_isTable hw)).symm
  rw [refusesTables_leaves s hs fields hnone] at hread
  cases hread

/-- What a table has for a key is what the key leads to behind those of the table. -/
theorem map_lookup_eq_at? (h : ofJson? (overlaid user file env) = some c) {t : TableSetting Config}
    (ht : t ∈ tables) {fields : List (String × Json)}
    (hv : (overlaid user file env).at? t.keys = some (.obj fields)) (k : String) :
    ((t.value c).lookup k).map Json.str = (overlaid user file env).at? (t.keys ++ [k]) := by
  have hs := List.mem_append_right leaves (List.mem_map_of_mem (f := TableSetting.toSetting) ht)
  have hkeys := noKeyTwice_overlaid hu hf he t.keys _ hv fields rfl
  rw [Json.at?_concat hv]
  exact Json.lookup_of_table? (read_of_at? h hs hv) hkeys k

/-- A table is there if a layer gives one of its keys or none says anything of the key. -/
theorem exists_table {t : TableSetting Config} (ht : t ∈ tables) {k : String}
    (hk : said? user file env (t.keys ++ [k]) ≠ some .blocked) :
    ∃ fields, (overlaid user file env).at? t.keys = some (.obj fields) := by
  have hdecides := decides_overlaid hu hf he (t.keys ++ [k])
  cases hsaid : said? user file env (t.keys ++ [k]) with
  | some said =>
    rw [hsaid] at hk hdecides
    cases said with
    | blocked => exact absurd rfl hk
    | value v =>
      obtain ⟨w, hw⟩ : ∃ w, (overlaid user file env).at? (t.keys ++ [k]) = some w := by
        by_cases hv : v.IsTable
        · exact (hdecides.exists_of_isTable hv).imp' _ fun _ h => h
        · exact ⟨v, hdecides.eq_of_not_isTable hv⟩
      exact (Json.at?_concat_eq_some_iff.mp hw).imp fun _ h => h.1
  | none =>
    -- No layer has anything but a table where this one stands.
    have htable := decides_overlaid hu hf he t.keys
    cases hkeys : said? user file env t.keys with
    | none =>
      rw [hkeys, at?_default_tables t ht] at htable
      exact ⟨_, htable⟩
    | some said =>
      rw [hkeys] at htable
      obtain ⟨l, hl, hlsaid⟩ := List.exists_of_findSome?_eq_some hkeys
      have hlk := List.findSome?_eq_none_iff.mp hsaid l hl
      rw [Json.saying?_append, hlsaid] at hlk
      cases said with
      | blocked => cases hlk
      | value v =>
        by_cases hv : v.IsTable
        · exact htable.exists_of_isTable hv
        · exact absurd hlk (by simp [Json.saying?_cons_of_not_isTable hv])

end Overlaid

/-- What comes of laying the settings of a user, of a file and of the environment over one another.
-/
theorem layered_of_ofJson? (hu : user.Throughout Proper) (hf : file.Throughout Proper)
    (he : env.Throughout Proper) (h : ofJson? (overlaid user file env) = some c) :
    Layered user file env c where
  given s hs v hv := by
    have hdecides := decides_overlaid hu hf he s.keys
    rw [hv] at hdecides
    by_cases hvt : v.IsTable
    · obtain ⟨fields, hfields⟩ := hdecides.exists_of_isTable hvt
      exact absurd hfields (at?_ne_obj hu hf he h hs fields)
    · exact read_of_at? h (List.mem_append_left _ hs) (hdecides.eq_of_not_isTable hvt)
  unsaid s hs hn := by
    have hdecides := decides_overlaid hu hf he s.keys
    rw [hn] at hdecides
    obtain ⟨d, hd, -, hread⟩ := exists_default_leaves s hs
    have hc := read_of_at? h (List.mem_append_left _ hs) ((show _ = _ from hdecides).trans hd)
    exact Option.some.inj (hc.symm.trans hread)
  blocked s hs hb hl := by
    have hdecides := decides_overlaid hu hf he s.keys
    rw [hb] at hdecides
    exact eq_default_of_at? h hs hdecides hl
  givenKey t ht k v hv := by
    have hdecides := decides_overlaid hu hf he (t.keys ++ [k])
    rw [hv] at hdecides
    obtain ⟨fields, hfields⟩ := exists_table hu hf he ht (k := k) (by simp [hv])
    have hlookup := map_lookup_eq_at? hu hf he h ht hfields k
    by_cases hvt : v.IsTable
    · obtain ⟨gs, hgs⟩ := hdecides.exists_of_isTable hvt
      rw [hgs] at hlookup
      obtain ⟨s, -, hs⟩ := Option.map_eq_some_iff.mp hlookup
      cases hs
    · rw [hlookup, hdecides.eq_of_not_isTable hvt]
  unsaidKey t ht k hn := by
    have hdecides := decides_overlaid hu hf he (t.keys ++ [k])
    rw [hn] at hdecides
    obtain ⟨fields, hfields⟩ := exists_table hu hf he ht (k := k) (by simp [hn])
    have hlookup := map_lookup_eq_at? hu hf he h ht hfields k
    rw [show (overlaid user file env).at? (t.keys ++ [k]) = _ from hdecides,
      Json.at?_concat (at?_default_tables t ht), Json.lookup_toJson] at hlookup
    exact Option.map_injective (fun _ _ => Json.str.inj) hlookup
  blockedKey t ht k hb hex := by
    have hdecides := decides_overlaid hu hf he (t.keys ++ [k])
    rw [hb] at hdecides
    obtain ⟨fields, hfields⟩ := hex
    have hlookup := map_lookup_eq_at? hu hf he h ht hfields k
    rw [show (overlaid user file env).at? (t.keys ++ [k]) = none from hdecides] at hlookup
    exact Option.map_eq_none_iff.mp hlookup
  read := holds_settings _ c h
  combined := decides_overlaid hu hf he

/-- No two configurations come of the same layers. -/
theorem Layered.unique {d : Config} (hc : Layered user file env c) (hd : Layered user file env d) :
    c = d := by
  refine eq_of_settings (fun s hs => ?_) (fun t ht => ?_)
  · have hs := List.mem_append_left (tables.map TableSetting.toSetting) hs
    exact (hc.read s hs).value_eq (hd.read s hs)
  · have ht := List.mem_append_right leaves (List.mem_map_of_mem (f := TableSetting.toSetting) ht)
    exact (hc.read t.toSetting ht).value_eq (hd.read t.toSetting ht)

end ArchiveLabels.Config
