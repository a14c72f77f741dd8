import ArchiveLabels.Json.Decode
import ArchiveLabels.Proofs.Json.Layers
import ArchiveLabels.Proofs.Path.Order

/-!
# Tables of texts

A table of texts gives what was put last under a key (`Table.lookup_ofList`), and no key twice. So a
JSON object that is read as a table of strings gives the string of each of its fields
(`Json.lookup_of_table?`).
-/

namespace ArchiveLabels

namespace Table

variable {ν : Type} {es : List (String × ν)} {k l : String} {v : ν}

theorem ranked_textLess : Ranked textLess (id : String → String) :=
  fun _ _ => decide_eq_true_iff

/-- A lookup behind a put finds what was put, and the rest as before. -/
theorem lookup_put (k l : String) (v : ν) (t : Table String ν) :
    (t.put textLess k v).lookup l = if l = k then some v else t.lookup l := by
  induction t with
  | nil => by_cases h : l = k <;> simp [put, List.lookup_cons, h, beq_false_of_ne]
  | cons e es ih =>
    obtain ⟨n, w⟩ := e
    rw [put_cons ranked_textLess]
    simp only [id]
    rcases lt_trichotomy n k with hlt | rfl | hgt
    · rw [if_pos hlt, List.lookup_cons, List.lookup_cons, ih]
      by_cases h : l = n
      · simp [h, hlt.ne]
      · simp [beq_false_of_ne h]
    · by_cases h : l = n <;> simp [List.lookup_cons, h, beq_false_of_ne]
    · rw [if_neg hgt.not_gt, if_pos hgt, List.lookup_cons]
      by_cases h : l = k <;> simp [h, beq_false_of_ne]

theorem ofList_concat (es : List (String × ν)) (e : String × ν) :
    ofList textLess (es ++ [e]) = (ofList textLess es).put textLess e.1 e.2 := by
  rw [ofList, List.foldl_append]
  rfl

/-- Of several values of a key, the last counts. -/
theorem lookup_ofList (es : List (String × ν)) (k : String) :
    (ofList textLess es).lookup k = es.reverse.lookup k := by
  induction es using List.reverseRecOn with
  | nil => rfl
  | append_singleton es e ih =>
    obtain ⟨l, v⟩ := e
    rw [ofList_concat, lookup_put, List.reverse_append, List.reverse_singleton,
      List.singleton_append, List.lookup_cons, ih]
    by_cases h : k = l <;> simp [h, beq_false_of_ne]

/-- A table made of a list names no key twice. -/
theorem nodup_keys_ofList (es : List (String × ν)) :
    ((ofList textLess es).map Prod.fst).Nodup := by
  have hascending : Ascending id (ofList textLess es) := by
    induction es using List.reverseRecOn with
    | nil => exact List.Pairwise.nil
    | append_singleton es e ih =>
      rw [ofList_concat]
      exact ih.put ranked_textLess e.1 e.2
  exact List.pairwise_map.mpr (hascending.imp fun h => h.ne)

theorem mem_of_lookup (h : es.lookup k = some v) : (k, v) ∈ es := by
  obtain ⟨as, bs, rfl, -⟩ := List.lookup_eq_some_iff.mp h
  exact List.mem_append_right as List.mem_cons_self

/-- What is found in it stood in the list. -/
theorem mem_of_lookup_ofList (h : (ofList textLess es).lookup k = some v) : (k, v) ∈ es := by
  rw [lookup_ofList] at h
  exact List.mem_reverse.mp (mem_of_lookup h)

/-- The first value of a key is the last, if no key is there twice. -/
theorem lookup_reverse (h : (es.map Prod.fst).Nodup) (k : String) :
    es.reverse.lookup k = es.lookup k := by
  induction es with
  | nil => rfl
  | cons e es ih =>
    obtain ⟨l, v⟩ := e
    obtain ⟨hl, hes⟩ := List.nodup_cons.mp h
    rw [List.reverse_cons, List.lookup_append, ih hes, List.lookup_cons, List.lookup_cons]
    by_cases hk : k = l
    · have hnone : es.lookup k = none := List.lookup_eq_none_iff.mpr fun p hp =>
        bne_iff_ne.mpr fun he => hl (List.mem_map.mpr ⟨p, hp, by rw [← he, hk]⟩)
      simp [hk, hk ▸ hnone]
    · simp [beq_false_of_ne hk]

end Table

namespace Json

variable {fields : List (String × Json)} {t : Table String String}

theorem lookup_of_mapM {es : List (String × String)}
    (h : (fields.mapM fun f => (string? f.2).map fun s => (f.1, s)) = some es) :
    es.map Prod.fst = fields.map Prod.fst ∧
      ∀ k, (es.lookup k).map Json.str = fields.lookup k := by
  induction fields generalizing es with
  | nil =>
    obtain rfl := Option.some.inj h
    exact ⟨rfl, fun _ => rfl⟩
  | cons f fields ih =>
    obtain ⟨l, j⟩ := f
    rw [List.mapM_cons] at h
    obtain ⟨e, he, h⟩ := Option.bind_eq_some_iff.mp h
    obtain ⟨ds, hds, h⟩ := Option.bind_eq_some_iff.mp h
    obtain rfl := Option.some.inj h
    obtain ⟨hkeys, hlookup⟩ := ih hds
    obtain ⟨s, hs, rfl⟩ := Option.map_eq_some_iff.mp he
    obtain rfl : j = .str s := by
      cases j with
      | str r => exact congrArg Json.str (Option.some.inj hs)
      | _ => cases hs
    refine ⟨congrArg (l :: ·) hkeys, fun k => ?_⟩
    rw [List.lookup_cons, List.lookup_cons, ← hlookup]
    dsimp only
    split <;> rfl

/-- A table of strings gives the strings of an object that has no key twice. -/
theorem lookup_of_table? (h : (obj fields).table? = some t) (hk : (fields.map Prod.fst).Nodup)
    (k : String) : (t.lookup k).map Json.str = fields.lookup k := by
  obtain ⟨es, hes, rfl⟩ := Option.map_eq_some_iff.mp h
  obtain ⟨hkeys, hlookup⟩ := lookup_of_mapM hes
  rw [Table.lookup_ofList, Table.lookup_reverse (hkeys ▸ hk), hlookup]

/-- What is written of a table. -/
theorem lookup_toJson (t : Table String String) (k : String) :
    (t.map fun (k, v) => (k, Json.str v)).lookup k = (t.lookup k).map Json.str := by
  induction t with
  | nil => rfl
  | cons e t ih =>
    rw [List.map_cons, List.lookup_cons, List.lookup_cons, ih]
    split <;> rfl

/-- The object of a table of proper values is proper. -/
theorem throughout_ofList {es : List (String × Json)} (h : ∀ e ∈ es, e.2.Throughout Proper) :
    (obj (Table.ofList Table.textLess es)).Throughout Proper :=
  throughout_obj (proper_obj (Table.nodup_keys_ofList es)) fun k v hv =>
    h (k, v) (Table.mem_of_lookup_ofList hv)

end Json

end ArchiveLabels
