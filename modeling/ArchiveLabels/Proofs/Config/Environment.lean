import ArchiveLabels.Config.Environment
import ArchiveLabels.Proofs.Json.Tables

/-!
# What variables give

No table in the settings that variables give has a key twice, and nothing in them is `null`
(`Environment.throughout_settings`) : variables are laid over each other, and each of them leads to
one value.
-/

namespace ArchiveLabels.Environment

open Json (Proper)

variable {j : Json}

/-! ## Values -/

theorem throughout_bareOf (cs : List Char) : (bareOf cs).Throughout Proper := by
  unfold bareOf
  split
  · exact Json.throughout_proper rfl
  · split <;> exact Json.throughout_proper rfl

/-- What the readers of values give with some fuel. -/
structure Reads (fuel : Nat) : Prop where
  value : ∀ cs j rest, readValue fuel cs = some (j, rest) → j.Throughout Proper
  fields : ∀ cs es rest, readFields fuel cs = some (es, rest) → ∀ e ∈ es, e.2.Throughout Proper

/-- A value is proper, given that those inside it are. -/
theorem Reads.readValue {fuel : Nat} {cs rest : List Char} (ih : Reads fuel)
    (h : readValue (fuel + 1) cs = some (j, rest)) : j.Throughout Proper := by
  -- Behind each kind of value, spaces are skipped.
  have skipped {r : Option (Json × List Char)} (hr : ∀ k cs, r = some (k, cs) → k.Throughout Proper)
      (h : (r.bind fun r => some (r.1, skipSpaces r.2)) = some (j, rest)) :
      j.Throughout Proper := by
    obtain ⟨⟨k, cs⟩, hk, h⟩ := Option.bind_eq_some_iff.mp h
    exact (Prod.mk.inj (Option.some.inj h)).1 ▸ hr k cs hk
  have single {k : Json} {cs : List Char} (hk : k.Throughout Proper) :
      ∀ l ds, some (k, cs) = some (l, ds) → l.Throughout Proper :=
    fun _ _ h => (Prod.mk.inj (Option.some.inj h)).1 ▸ hk
  unfold Environment.readValue at h
  split at h
  · exact skipped (single (Json.throughout_proper rfl)) h
  · exact skipped (single (Json.throughout_proper rfl)) h
  · refine skipped (fun k ds hk => ?_) h
    obtain ⟨⟨es, r⟩, hes, hk⟩ := Option.map_eq_some_iff.mp hk
    exact (Prod.mk.inj hk).1 ▸ Json.throughout_ofList (ih.fields _ _ _ hes)
  · refine skipped (fun k ds hk => ?_) h
    obtain ⟨r, -, hk⟩ := Option.map_eq_some_iff.mp hk
    exact (Prod.mk.inj hk).1 ▸ Json.throughout_proper rfl
  · refine skipped (fun k ds hk => ?_) h
    obtain ⟨r, -, hk⟩ := Option.map_eq_some_iff.mp hk
    exact (Prod.mk.inj hk).1 ▸ Json.throughout_proper rfl
  · exact skipped (single (Json.throughout_proper rfl)) h
  · cases h
  · exact skipped (single (throughout_bareOf _)) h

/-- The fields of a table are proper, given that the values inside them are. -/
theorem Reads.readFields {fuel : Nat} {cs rest : List Char} {es : List (String × Json)}
    (ih : Reads fuel) (h : readFields (fuel + 1) cs = some (es, rest)) :
    ∀ e ∈ es, e.2.Throughout Proper := by
  unfold Environment.readFields at h
  split at h
  · cases h
    exact nofun
  obtain ⟨⟨key, cs⟩, -, h⟩ := Option.bind_eq_some_iff.mp h
  dsimp only at h
  split at h
  · obtain ⟨⟨k, cs⟩, hk, h⟩ := Option.bind_eq_some_iff.mp h
    have hproper := ih.value _ _ _ hk
    dsimp only at h
    split at h
    · obtain ⟨⟨fs, cs⟩, hfs, h⟩ := Option.bind_eq_some_iff.mp h
      obtain ⟨rfl, -⟩ := Prod.mk.inj (Option.some.inj h)
      exact List.forall_mem_cons.mpr ⟨hproper, ih.fields _ _ _ hfs⟩
    · obtain ⟨rfl, -⟩ := Prod.mk.inj (Option.some.inj h)
      exact List.forall_mem_singleton.mpr hproper
    · cases h
  · cases h

/-- Whatever a variable says reads as a proper value. -/
theorem reads (fuel : Nat) : Reads fuel := by
  induction fuel with
  | zero =>
    exact {
      value := fun _ _ _ h => by simp [Environment.readValue] at h
      fields := fun _ _ _ h => by simp [Environment.readFields] at h }
  | succ fuel ih => exact ⟨fun _ _ _ => ih.readValue, fun _ _ _ => ih.readFields⟩

theorem throughout_valueOf (text : String) : (valueOf text).Throughout Proper := by
  unfold valueOf
  dsimp only
  split
  · exact (reads _).value _ _ _ ‹_›
  · exact Json.throughout_proper rfl

/-! ## Variables -/

/-- A setting laid under its keys stays proper. -/
theorem throughout_settingsAt (keys : List String) (hj : j.Throughout Proper) :
    (settingsAt keys j).Throughout Proper := by
  induction keys with
  | nil => exact hj
  | cons k ks ih =>
    refine Json.throughout_obj (Json.proper_obj (List.nodup_singleton k)) fun l v hv => ?_
    rw [List.lookup_cons] at hv
    split at hv
    · exact Option.some.inj hv ▸ ih
    · cases hv

/-- The last variable is merged over those before it. -/
theorem settings_concat (environment : List (String × String)) (v : String × String) :
    settings (environment ++ [v]) =
      (keysOf? v.1).elim (settings environment) fun keys =>
        Json.merge (settings environment) (settingsAt keys (valueOf v.2)) := by
  cases hk : keysOf? v.1 <;>
    simp only [settings, List.foldl_append, List.foldl_cons, List.foldl_nil, hk, Option.elim]

/-- No table in what variables give has a key twice, and nothing in it is `null`. -/
theorem throughout_settings (environment : List (String × String)) :
    (settings environment).Throughout Proper := by
  induction environment using List.reverseRecOn with
  | nil => exact Json.throughout_proper_empty
  | append_singleton environment v ih =>
    rw [settings_concat]
    cases keysOf? v.1 with
    | none => exact ih
    | some keys => exact ih.merge_proper (throughout_settingsAt keys (throughout_valueOf v.2))

end ArchiveLabels.Environment
