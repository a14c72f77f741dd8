import ArchiveLabels.Json.Merge
import Mathlib.Data.List.Induction
import Mathlib.Data.List.Nodup

/-!
# What values laid over each other say

Keys lead through tables to a value. `Json.saying? ks j` is what `j` has to say of the value that
`ks` lead to : which one it is, or that there is none since something other than a table is on the way,
or nothing at all since a table on the way does not have the key. Of values laid over each other
counts the last one that has something to say (`Json.decides_foldl_merge`), where two tables become
one.
-/

namespace ArchiveLabels.Json

/-- What there is to say of the value that keys lead to. -/
inductive Saying where
  /-- This is the value. -/
  | value (j : Json)
  /-- There is none : something other than a table is on the way. -/
  | blocked

/-- What `j` says of the value that keys lead to. -/
def saying? : List String → Json → Option Saying
  | [], j => some (.value j)
  | k :: ks, .obj fields => (fields.lookup k).bind (saying? ks)
  | _ :: _, _ => some .blocked

/-- The value that keys lead to. -/
def at? (ks : List String) (j : Json) : Option Json :=
  match j.saying? ks with
  | some (.value v) => some v
  | _ => none

/-- The value is a table. -/
def IsTable (j : Json) : Prop := ∃ fields, j = .obj fields

instance (j : Json) : Decidable j.IsTable :=
  match j with
  | .obj fields => isTrue ⟨fields, rfl⟩
  | .null | .bool _ | .int _ | .real _ | .str _ | .broken _ | .arr _ => isFalse nofun

/-- The value is neither a table nor `null`. -/
def isSimple : Json → Bool
  | .obj _ | .null => false
  | _ => true

variable {fields fs : List (String × Json)} {base top j v : Json} {k : String} {ks : List String}

theorem at?_eq_some_iff : j.at? ks = some v ↔ j.saying? ks = some (.value v) := by
  unfold at?
  split <;> simp_all

@[simp] theorem at?_nil (j : Json) : j.at? [] = some j := rfl

theorem saying?_obj_cons (fields : List (String × Json)) (k : String) (ks : List String) :
    (obj fields).saying? (k :: ks) = (fields.lookup k).bind (saying? ks) := by
  rw [saying?]

theorem at?_obj_cons (fields : List (String × Json)) (k : String) (ks : List String) :
    (obj fields).at? (k :: ks) = (fields.lookup k).bind (at? ks) := by
  rw [at?, saying?_obj_cons]
  cases fields.lookup k <;> rfl

/-- Nothing but a table says anything of a path below it : it blocks the layers beneath. -/
theorem saying?_cons_of_not_isTable (h : ¬j.IsTable) (k : String) (ks : List String) :
    j.saying? (k :: ks) = some .blocked := by
  cases j with
  | obj fields => exact absurd ⟨fields, rfl⟩ h
  | _ => rfl

theorem at?_cons_of_not_isTable (h : ¬j.IsTable) (k : String) (ks : List String) :
    j.at? (k :: ks) = none := by
  rw [at?, saying?_cons_of_not_isTable h]

theorem at?_append (ks ls : List String) (j : Json) :
    j.at? (ks ++ ls) = (j.at? ks).bind (at? ls) := by
  induction ks generalizing j with
  | nil => rfl
  | cons k ks ih =>
    cases j with
    | obj fields =>
      rw [List.cons_append, at?_obj_cons, at?_obj_cons, Option.bind_assoc]
      exact Option.bind_congr fun v _ => ih v
    | _ => rfl

/-- What is said of further keys is said by the value that the first ones lead to. -/
theorem saying?_append (ks ls : List String) (j : Json) :
    j.saying? (ks ++ ls) =
      match j.saying? ks with
      | some (.value v) => v.saying? ls
      | said => said := by
  induction ks generalizing j with
  | nil => rfl
  | cons k ks ih =>
    cases j with
    | obj fields =>
      rw [List.cons_append, saying?_obj_cons, saying?_obj_cons]
      cases fields.lookup k with
      | none => rfl
      | some v => exact ih v
    | _ => rfl

/-- What stands behind a key stands in a table. -/
theorem at?_concat_eq_some_iff : j.at? (ks ++ [k]) = some v ↔
    ∃ fields, j.at? ks = some (.obj fields) ∧ fields.lookup k = some v := by
  rw [at?_append, Option.bind_eq_some_iff]
  constructor
  · rintro ⟨w, hw, hv⟩
    cases w with
    | obj fields =>
      rw [at?_obj_cons] at hv
      obtain ⟨x, hx, hv⟩ := Option.bind_eq_some_iff.mp hv
      obtain rfl := Option.some.inj hv
      exact ⟨fields, hw, hx⟩
    | _ => cases hv
  · rintro ⟨fields, hw, hv⟩
    refine ⟨_, hw, ?_⟩
    rw [at?_obj_cons, hv]
    rfl

theorem at?_concat (h : j.at? ks = some (.obj fields)) (k : String) :
    j.at? (ks ++ [k]) = fields.lookup k := by
  rw [at?_append, h, Option.bind_some, at?_obj_cons]
  cases fields.lookup k <;> rfl

/-! ## Values all of whose tables are alike -/

/-- All values that keys lead to are as said. -/
def Throughout (P : Json → Prop) (j : Json) : Prop :=
  ∀ ks v, j.at? ks = some v → P v

/-- The value is no table that has a key twice. -/
def NoKeyTwice (j : Json) : Prop :=
  ∀ fields, j = .obj fields → (fields.map Prod.fst).Nodup

/-- The value is neither `null` nor a table that has a key twice. -/
structure Proper (j : Json) : Prop where
  ne_null : j ≠ .null
  noKeyTwice : j.NoKeyTwice

section Throughout

variable {P Q : Json → Prop}

theorem Throughout.self (h : j.Throughout P) : P j := h [] j rfl

/-- A weaker property holds throughout as well. -/
theorem Throughout.mono (h : j.Throughout P) (hPQ : ∀ v, P v → Q v) : j.Throughout Q :=
  fun ks v hv => hPQ v (h ks v hv)

/-- What holds throughout a table holds throughout its values. -/
theorem Throughout.lookup (h : (obj fields).Throughout P) (hv : fields.lookup k = some v) :
    v.Throughout P := by
  intro ks w hw
  refine h (k :: ks) w ?_
  rw [at?_obj_cons, hv]
  exact hw

theorem throughout_obj (hP : P (.obj fields))
    (h : ∀ k v, fields.lookup k = some v → v.Throughout P) : (obj fields).Throughout P := by
  intro ks v hv
  cases ks with
  | nil => exact Option.some.inj hv ▸ hP
  | cons k ks =>
    rw [at?_obj_cons] at hv
    obtain ⟨w, hw, hv⟩ := Option.bind_eq_some_iff.mp hv
    exact h k w hw ks v hv

theorem throughout_of_not_isTable (hj : ¬j.IsTable) (hP : P j) : j.Throughout P := by
  intro ks v hv
  cases ks with
  | nil => exact Option.some.inj hv ▸ hP
  | cons k ks => exact absurd hv (by simp [at?_cons_of_not_isTable hj])

end Throughout

theorem noKeyTwice_of_not_isTable (hj : ¬j.IsTable) : j.NoKeyTwice :=
  fun fields h => absurd ⟨fields, h⟩ hj

theorem noKeyTwice_obj (h : (fields.map Prod.fst).Nodup) : (obj fields).NoKeyTwice :=
  fun _ hf => Json.obj.inj hf ▸ h

theorem proper_obj (h : (fields.map Prod.fst).Nodup) : (obj fields).Proper :=
  ⟨fun hn => (by cases hn), noKeyTwice_obj h⟩

/-- No keys lead on from what is neither a table nor `null`. -/
theorem throughout_proper (h : j.isSimple = true) : j.Throughout Proper := by
  have hj : ¬j.IsTable := by
    rintro ⟨fields, rfl⟩
    cases h
  have hn : j ≠ .null := by
    rintro rfl
    cases h
  exact throughout_of_not_isTable hj ⟨hn, noKeyTwice_of_not_isTable hj⟩

theorem throughout_empty {P : Json → Prop} (hP : P (.obj [])) : (obj []).Throughout P :=
  throughout_obj hP fun _ _ h => by cases h

theorem throughout_proper_empty : (obj []).Throughout Proper :=
  throughout_empty (proper_obj List.nodup_nil)

theorem throughout_noKeyTwice_of_not_isTable (hj : ¬j.IsTable) : j.Throughout NoKeyTwice :=
  throughout_of_not_isTable hj (noKeyTwice_of_not_isTable hj)

/-! ## Setting a field -/

theorem mem_keys_putField {f : String × Json} (h : k ∈ (putField f fields).map Prod.fst) :
    k = f.1 ∨ k ∈ fields.map Prod.fst := by
  induction fields with
  | nil => simpa [putField] using h
  | cons g gs ih =>
    unfold putField at h
    split at h
    · simp only [List.map_cons, List.mem_cons] at h ⊢
      exact h.imp_right .inr
    · simp only [List.map_cons, List.mem_cons] at h ⊢
      rcases h with h | h
      · exact .inr (.inl h)
      · exact (ih h).imp_right .inr

/-- A field put names no key twice. -/
theorem nodup_keys_putField (f : String × Json) (h : (fields.map Prod.fst).Nodup) :
    ((putField f fields).map Prod.fst).Nodup := by
  induction fields with
  | nil => simp [putField]
  | cons g gs ih =>
    obtain ⟨hg, hgs⟩ := List.nodup_cons.mp h
    unfold putField
    split
    · rename_i hgf
      exact List.nodup_cons.mpr ⟨hgf ▸ hg, hgs⟩
    · rename_i hgf
      exact List.nodup_cons.mpr ⟨fun hm => (mem_keys_putField hm).elim hgf hg, ih hgs⟩

/-- A proper value put in a proper table keeps it so at every depth. -/
theorem throughout_putField (h : (obj fields).Throughout Proper) (hv : v.Throughout Proper) :
    (obj (putField (k, v) fields)).Throughout Proper := by
  refine throughout_obj (proper_obj (nodup_keys_putField _ (h.self.noKeyTwice _ rfl))) ?_
  intro l w hw
  rw [lookup_putField] at hw
  split at hw
  · exact Option.some.inj hw ▸ hv
  · exact h.lookup hw

/-! ## Two values laid over each other -/

/-- A value laid over the one that is there, if there is one. -/
def laidOver : Option Json → Json → Json
  | some base, top => merge base top
  | none, top => top

theorem merge_obj_obj (fields fs : List (String × Json)) :
    merge (.obj fields) (.obj fs) = .obj (mergeFields fields fs) := by
  rw [merge]

/-- Nothing but a table is merged into. -/
theorem merge_of_not_isTable (h : ¬base.IsTable) (top : Json) : merge base top = top := by
  cases base with
  | obj fields => exact absurd ⟨fields, rfl⟩ h
  | _ => cases top <;> rfl

/-- What is no table replaces what it is laid on. -/
theorem merge_not_isTable (base : Json) (h : ¬top.IsTable) : merge base top = top := by
  cases top with
  | obj fs => exact absurd ⟨fs, rfl⟩ h
  | _ => rfl

/-- Fields are laid over one by one. -/
theorem mergeFields_cons (fields : List (String × Json)) (k : String) (v : Json)
    (fs : List (String × Json)) :
    mergeFields fields ((k, v) :: fs) =
      mergeFields (putField (k, laidOver (fields.lookup k) v) fields) fs := by
  rw [mergeFields, mergeField]
  cases fields.lookup k <;> rfl

/-- What a table has to say of a key counts, be there something below it or not. -/
theorem lookup_mergeFields (h : (fs.map Prod.fst).Nodup) (fields : List (String × Json))
    (name : String) :
    (mergeFields fields fs).lookup name =
      match fs.lookup name with
      | none => fields.lookup name
      | some v => some (laidOver (fields.lookup name) v) := by
  induction fs generalizing fields with
  | nil => rfl
  | cons f fs ih =>
    obtain ⟨k, v⟩ := f
    obtain ⟨hk, hfs⟩ := List.nodup_cons.mp h
    rw [mergeFields_cons, ih hfs, lookup_putField, List.lookup_cons]
    by_cases hn : name = k
    · subst hn
      have hnone : fs.lookup name = none := List.lookup_eq_none_iff.mpr fun p hp => by
        exact bne_iff_ne.mpr fun he => hk (List.mem_map.mpr ⟨p, hp, he.symm⟩)
      simp [hnone]
    · simp [hn, beq_false_of_ne hn]

theorem nodup_keys_mergeFields (h : (fields.map Prod.fst).Nodup) (fs : List (String × Json)) :
    ((mergeFields fields fs).map Prod.fst).Nodup := by
  induction fs generalizing fields with
  | nil => exact h
  | cons f fs ih =>
    obtain ⟨k, v⟩ := f
    rw [mergeFields_cons]
    exact ih (nodup_keys_putField _ h)

/-- What stands at the end of keys when a value is laid over another. -/
theorem at?_merge (ht : top.Throughout NoKeyTwice) (base : Json) (ks : List String) :
    (merge base top).at? ks =
      match top.saying? ks with
      | none => base.at? ks
      | some .blocked => none
      | some (.value v) => some (laidOver (base.at? ks) v) := by
  induction ks generalizing base top with
  | nil => rfl
  | cons k ks ih =>
    cases top with
    | obj fs =>
      by_cases hb : base.IsTable
      · obtain ⟨fields, rfl⟩ := hb
        rw [merge_obj_obj, at?_obj_cons, lookup_mergeFields (ht.self _ rfl), saying?_obj_cons,
          at?_obj_cons]
        cases hk : fs.lookup k with
        | none => rfl
        | some v =>
          cases hf : fields.lookup k with
          | none =>
            change v.at? ks = _
            simp only [Option.bind_some, at?, Option.bind_none]
            cases v.saying? ks with
            | none => rfl
            | some s => cases s <;> rfl
          | some b => exact ih (ht.lookup hk) b
      · rw [merge_of_not_isTable hb, at?_cons_of_not_isTable hb, at?]
        cases (obj fs).saying? (k :: ks) with
        | none => rfl
        | some s => cases s <;> rfl
    | _ => rfl

/-- Nothing changes what is laid over an empty table. -/
theorem at?_merge_empty (ht : top.Throughout NoKeyTwice) (k : String) (ks : List String) :
    (merge (.obj []) top).at? (k :: ks) = top.at? (k :: ks) := by
  have hempty : (obj []).at? (k :: ks) = none := rfl
  rw [at?_merge ht, hempty, at?]
  cases top.saying? (k :: ks) with
  | none => rfl
  | some s => cases s <;> rfl

/-- What holds of two values and of one laid over the other holds of all that keys lead to. -/
theorem throughout_merge {P : Json → Prop} (hP : ∀ b t, P b → P t → P (merge b t))
    (hb : base.Throughout P) (ht : top.Throughout P) (hk : top.Throughout NoKeyTwice) :
    (merge base top).Throughout P := by
  intro ks v hv
  rw [at?_merge hk] at hv
  cases hs : top.saying? ks with
  | none => exact hb ks v (by simpa [hs] using hv)
  | some s =>
    cases s with
    | blocked => simp [hs] at hv
    | value t =>
      simp only [hs, Option.some.injEq] at hv
      subst hv
      have ht := ht ks t (at?_eq_some_iff.mpr hs)
      cases hbase : base.at? ks with
      | none => exact ht
      | some b => exact hP b t (hb ks b hbase) ht

/-- Merging names no key twice. -/
theorem noKeyTwice_merge (hb : base.NoKeyTwice) (ht : top.NoKeyTwice) :
    (merge base top).NoKeyTwice := by
  by_cases htop : top.IsTable
  · obtain ⟨fs, rfl⟩ := htop
    by_cases hbase : base.IsTable
    · obtain ⟨fields, rfl⟩ := hbase
      rw [merge_obj_obj]
      exact noKeyTwice_obj (nodup_keys_mergeFields (hb _ rfl) fs)
    · rwa [merge_of_not_isTable hbase]
  · rwa [merge_not_isTable base htop]

theorem merge_ne_null (base : Json) (h : top ≠ .null) : merge base top ≠ .null := by
  by_cases htop : top.IsTable
  · obtain ⟨fs, rfl⟩ := htop
    cases base <;> exact fun hn => by cases hn
  · rwa [merge_not_isTable base htop]

theorem proper_merge (hb : base.Proper) (ht : top.Proper) : (merge base top).Proper :=
  ⟨merge_ne_null base ht.ne_null, noKeyTwice_merge hb.noKeyTwice ht.noKeyTwice⟩

theorem Throughout.merge_noKeyTwice (hb : base.Throughout NoKeyTwice)
    (ht : top.Throughout NoKeyTwice) : (merge base top).Throughout NoKeyTwice :=
  throughout_merge (fun _ _ => noKeyTwice_merge) hb ht ht

/-- Merging proper layers gives one. -/
theorem Throughout.merge_proper (hb : base.Throughout Proper) (ht : top.Throughout Proper) :
    (merge base top).Throughout Proper :=
  throughout_merge (fun _ _ => proper_merge) hb ht (ht.mono fun _ h => h.noKeyTwice)

/-! ## Any number of values laid over each other -/

/-- What stands at the end of keys, given what stood there and the last that is said of it. A table
that is said to stand there is one, be it larger than is said; any other value is just as said. -/
def Decides (below : Option Json) : Option Saying → Option Json → Prop
  | none, r => r = below
  | some .blocked, r => r = none
  | some (.value (.obj _)), r => ∃ fields, r = some (.obj fields)
  | some (.value v), r => r = some v

theorem Decides.eq_of_not_isTable {below r : Option Json} (h : Decides below (some (.value v)) r)
    (hv : ¬v.IsTable) : r = some v := by
  cases v with
  | obj fields => exact absurd ⟨fields, rfl⟩ hv
  | _ => exact h

theorem Decides.exists_of_isTable {below r : Option Json} (h : Decides below (some (.value v)) r)
    (hv : v.IsTable) : ∃ fields, r = some (.obj fields) := by
  obtain ⟨fields, rfl⟩ := hv
  exact h

/-- What is below counts only if nothing is said. -/
theorem Decides.of_below {below b r : Option Json} {said : Option Saying} (h : Decides below said r)
    (hb : said = none → below = b) : Decides b said r := by
  cases said with
  | none => exact (show r = below from h).trans (hb rfl)
  | some s =>
    cases s with
    | blocked => exact h
    | value v => cases v <;> exact h

/-- A value laid over decides at its own key. -/
theorem decides_laidOver (below b : Option Json) (v : Json) :
    Decides below (some (.value v)) (some (laidOver b v)) := by
  cases v with
  | obj fs =>
    cases b with
    | none => exact ⟨fs, rfl⟩
    | some b =>
      by_cases hb : b.IsTable
      · obtain ⟨fields, rfl⟩ := hb
        exact ⟨_, congrArg some (merge_obj_obj fields fs)⟩
      · exact ⟨fs, congrArg some (merge_of_not_isTable hb _)⟩
  | _ => cases b <;> rfl

/-- Of values laid over each other, the last one that says something counts. -/
theorem decides_foldl_merge {ls : List Json} (hl : ∀ l ∈ ls, l.Throughout NoKeyTwice) (base : Json)
    (ks : List String) :
    Decides (base.at? ks) (ls.reverse.findSome? (saying? ks)) ((ls.foldl merge base).at? ks) := by
  induction ls using List.reverseRecOn with
  | nil => rfl
  | append_singleton ls l ih =>
    have ih := ih fun l hm => hl l (List.mem_append_left _ hm)
    have hlast := hl l (List.mem_append_right _ List.mem_cons_self)
    rw [List.foldl_append, List.foldl_cons, List.foldl_nil, List.reverse_append,
      List.reverse_singleton, List.singleton_append, List.findSome?_cons, at?_merge hlast]
    cases l.saying? ks with
    | none => exact ih
    | some s =>
      cases s with
      | blocked => rfl
      | value v => exact decides_laidOver _ _ v

end ArchiveLabels.Json
