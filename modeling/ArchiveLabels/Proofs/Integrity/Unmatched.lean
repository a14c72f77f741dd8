import ArchiveLabels.Integrity
import ArchiveLabels.Proofs.Firsts

/-!
# Values that no record declares

A check of records knows nothing of numbers : it walks through the records with an index of known
values and the values it has met already. Here a use of a value has a place, its `Spot`, and spots
are ordered as the records, their slots and their values are. The problems of a category are one for
each value that is missing, at its first spot, in the order of these spots (`Category.Reports`), and
which values are missing does not depend on the order of the records
(`Category.missing_congr_of_perm`). `Integrity.check_reports` puts the categories together.
-/

namespace ArchiveLabels

open Text

variable {c : Category} {r : Record} {rs : List Record}

/-! ## Parents, children and missing values -/

namespace Record

/-- The record has a class that differs from `kind` at most in the case of letters. -/
def Declares (r : Record) (kind : String) : Prop :=
  ∃ d ∈ r.dataClasses, lower d = lower kind

/-- A slot of the record that is named `keyword` has the value `v`. -/
def Gives (r : Record) (keyword v : String) : Prop :=
  ∃ s ∈ r.slots, s.name = keyword ∧ v ∈ s.values

theorem declares_iff {kind : String} : r.declares kind = true ↔ r.Declares kind := by
  simp only [declares, List.any_eq_true, sameLetters, beq_iff_eq]
  rfl

end Record

namespace Category

/-- The record says which values exist. -/
def Parent (c : Category) (r : Record) : Prop :=
  r.Declares c.name ∨ (lower c.name = lower dataSet ∧ r.Declares dataSetCollection)

/-- The record uses values. -/
def Child (c : Category) (r : Record) : Prop :=
  ¬r.Declares c.name

/-- Some child has the value and no parent has it. -/
def Missing (c : Category) (rs : List Record) (v : String) : Prop :=
  (∃ r ∈ rs, c.Child r ∧ r.Gives c.identifier v) ∧
    ∀ r ∈ rs, c.Parent r → ¬r.Gives c.identifier v

theorem isParent_iff : c.isParent r = true ↔ c.Parent r := by
  simp only [isParent, Parent, Bool.or_eq_true, Bool.and_eq_true, Record.declares_iff, sameLetters,
    beq_iff_eq]

theorem isChild_iff : c.isChild r = true ↔ c.Child r := by
  rw [isChild, Child, Bool.not_eq_true', ← Record.declares_iff, Bool.not_eq_true]

/-- Only which records there are matters to which values are missing. -/
theorem missing_congr_of_perm {rs' : List Record} (h : rs.Perm rs') (v : String) :
    c.Missing rs v ↔ c.Missing rs' v := by
  simp only [Missing, h.mem_iff]

end Category

/-! ## Spots -/

/-- A place where a value stands among records, in numbers that count from zero. -/
structure Spot where
  /-- The number of the record. -/
  record : Nat
  /-- The number of the slot in the record. -/
  slot : Nat
  /-- The number of the value in the slot. -/
  value : Nat
deriving DecidableEq, Repr

/-- The first spot comes before the second one. -/
def Spot.Before (a b : Spot) : Prop :=
  a.record < b.record ∨
    a.record = b.record ∧ (a.slot < b.slot ∨ a.slot = b.slot ∧ a.value < b.value)

theorem Spot.Before.asymm {a b : Spot} (h : a.Before b) : ¬b.Before a := by
  unfold Spot.Before at *
  omega

namespace Category

/-- What stands at the spot is a use of a value by a child, with the line of the value. -/
structure UsedAt (c : Category) (rs : List Record) (spot : Spot) (u : Unmatched) : Prop where
  record : rs[spot.record]? = some u.record
  child : c.Child u.record
  slot : ∃ s, u.record.slots[spot.slot]? = some s ∧ s.name = c.identifier ∧
    s.values[spot.value]? = some u.value ∧ s.lines[spot.value]? = u.line

/-- No spot before it has the same value. -/
def FirstUse (c : Category) (rs : List Record) (spot : Spot) (u : Unmatched) : Prop :=
  c.UsedAt rs spot u ∧
    ∀ spot' u', c.UsedAt rs spot' u' → u'.value = u.value → ¬spot'.Before spot

/-- What is said about a missing value. -/
def wording (c : Category) (v : String) : String :=
  c.identifier ++ " '" ++ v ++ "' does not match any " ++ c.name ++ " object."

/-- The error about a missing value at a use of it. -/
def report (c : Category) (u : Unmatched) : Problem where
  kind := .unmatchedReference
  severity := .error
  message := c.wording u.value
  source := u.record.source
  line := u.line
  column := none

/-- The problems are what the category finds wrong with the records. -/
structure Reports (c : Category) (rs : List Record) (ps : List Problem) : Prop where
  /-- The values reported are those that are missing. -/
  reported_iff : ∀ v, (∃ p ∈ ps, p.message = c.wording v) ↔ c.Missing rs v
  /-- A missing value is reported once. -/
  once : ∀ v, c.Missing rs v → (ps.countP fun p => p.message = c.wording v) = 1
  /-- Each is reported at its first use, and the reports are in the order of these uses. -/
  inOrder : ∃ us : List (Spot × Unmatched), us.Pairwise (fun x y => x.1.Before y.1) ∧
    (∀ spot u, (spot, u) ∈ us ↔ c.Missing rs u.value ∧ c.FirstUse rs spot u) ∧
    ps = us.map fun x => c.report x.2

/-- Problems of two values differ in their wording. -/
theorem wording_inj {v w : String} : c.wording v = c.wording w ↔ v = w := by
  simp only [wording, ← String.toList_inj, String.toList_append, List.append_assoc,
    List.append_cancel_left_eq, List.append_cancel_right_eq]

/-! ## Uses with their spots -/

/-- The uses of values with their spots. -/
def spots (c : Category) (rs : List Record) : List (Spot × Unmatched) :=
  (rs.zipIdx.filter fun x => c.isChild x.1).flatMap fun x =>
    (x.1.slots.zipIdx.filter fun y => y.1.name == c.identifier).flatMap fun y =>
      y.1.values.zipIdx.map fun z => (⟨x.2, y.2, z.2⟩, ⟨z.1, x.1, y.1.lines[z.2]?⟩)

end Category

theorem zipLines_eq_map_zipIdx (vs : List String) (ls : List Nat) :
    Slot.zipLines vs ls = vs.zipIdx.map fun z => (z.1, ls[z.2]?) := by
  have hfrom (k : Nat) : Slot.zipLines vs (ls.drop k) =
      (vs.zipIdx k).map fun z => (z.1, ls[z.2]?) := by
    induction vs generalizing k with
    | nil => rfl
    | cons v vs ih =>
      rw [List.zipIdx_cons, List.map_cons, ← ih]
      rcases hk : ls.drop k with _ | ⟨l, rest⟩
      · have hlen : ls.length ≤ k := by simpa using hk
        rw [List.drop_eq_nil_of_le (by omega : ls.length ≤ k + 1), Slot.zipLines,
          List.getElem?_eq_none hlen]
      · have hl : ls[k]? = some l := by rw [← List.head?_drop, hk, List.head?_cons]
        have hrest : ls.drop (k + 1) = rest := by rw [← List.tail_drop, hk, List.tail_cons]
        rw [Slot.zipLines, hl, hrest]
  exact hfrom 0

/-- Numbers make no difference where they are not looked at. -/
theorem flatMap_filter_zipIdx {α β : Type} (l : List α) (p : α → Bool) (f : α → List β) :
    ((l.zipIdx.filter fun x => p x.1).flatMap fun x => f x.1) = (l.filter p).flatMap f := by
  have hfilter : l.filter p = (l.zipIdx.filter fun x => p x.1).map Prod.fst := by
    have h := List.filter_map (f := Prod.fst) (p := p) (l := l.zipIdx)
    rwa [List.zipIdx_map_fst] at h
  rw [hfilter, List.flatMap_map]

theorem pairwise_zipIdx {α : Type} (l : List α) : l.zipIdx.Pairwise fun x y => x.2 < y.2 := by
  refine List.pairwise_map.mp ?_
  rw [List.zipIdx_map_snd]
  exact List.pairwise_lt_range'

namespace Category

/-- The uses are listed with their spots, and nothing else. -/
theorem map_spots : (c.spots rs).map Prod.snd = c.uses rs := by
  simp only [spots, uses, Record.slotEntries, Slot.entries, zipLines_eq_map_zipIdx,
    List.map_flatMap, List.map_map, Function.comp_def]
  rw [flatMap_filter_zipIdx rs c.isChild fun r =>
    (r.slots.zipIdx.filter fun y => y.1.name == c.identifier).flatMap fun y =>
      y.1.values.zipIdx.map fun z => (⟨z.1, r, y.1.lines[z.2]?⟩ : Unmatched)]
  congr 1
  funext r
  exact flatMap_filter_zipIdx r.slots (fun s => s.name == c.identifier) fun s =>
    s.values.zipIdx.map fun z => (⟨z.1, r, s.lines[z.2]?⟩ : Unmatched)

/-- A spot is listed with a use when the value is used there. -/
theorem mem_spots_iff {spot : Spot} {u : Unmatched} :
    (spot, u) ∈ c.spots rs ↔ c.UsedAt rs spot u := by
  simp only [spots, List.mem_flatMap, List.mem_filter, List.mem_map, List.mem_zipIdx_iff_getElem?,
    beq_iff_eq, isChild_iff, Prod.exists, Prod.mk.injEq]
  constructor
  · rintro ⟨r, a, ⟨hr, hchild⟩, s, b, ⟨hs, hname⟩, v, i, hv, rfl, rfl⟩
    exact ⟨hr, hchild, s, hs, hname, hv, rfl⟩
  · rintro ⟨hr, hchild, s, hs, hname, hv, hline⟩
    exact ⟨u.record, spot.record, ⟨hr, hchild⟩, s, spot.slot, ⟨hs, hname⟩, u.value, spot.value, hv,
      rfl, by rw [hline]⟩

/-- Uses are met in the order of their spots. -/
theorem pairwise_spots : (c.spots rs).Pairwise fun x y => x.1.Before y.1 := by
  refine List.pairwise_flatMap.mpr ⟨fun x _ => List.pairwise_flatMap.mpr ⟨fun y _ => ?_, ?_⟩, ?_⟩
  · exact List.pairwise_map.mpr ((pairwise_zipIdx _).imp fun h => .inr ⟨rfl, .inr ⟨rfl, h⟩⟩)
  · refine ((pairwise_zipIdx x.1.slots).filter _).imp fun h e he e' he' => ?_
    obtain ⟨_, -, rfl⟩ := List.mem_map.mp he
    obtain ⟨_, -, rfl⟩ := List.mem_map.mp he'
    exact .inr ⟨rfl, .inl h⟩
  · refine ((pairwise_zipIdx rs).filter _).imp fun h e he e' he' => ?_
    obtain ⟨_, -, he⟩ := List.mem_flatMap.mp he
    obtain ⟨_, -, rfl⟩ := List.mem_map.mp he
    obtain ⟨_, -, he'⟩ := List.mem_flatMap.mp he'
    obtain ⟨_, -, rfl⟩ := List.mem_map.mp he'
    exact .inl h

end Category

/-! ## What is reported -/

theorem Record.mem_slotValues_iff {keyword v : String} :
    v ∈ r.slotValues keyword ↔ r.Gives keyword v := by
  simp only [slotValues, slotEntries, Slot.entries, zipLines_eq_map_zipIdx, List.map_flatMap,
    List.map_map, Function.comp_def, List.zipIdx_map_fst, List.mem_flatMap, List.mem_filter,
    beq_iff_eq, Gives, and_assoc]

namespace Category

/-- A value is known when some parent gives it. -/
theorem contains_knownValues_iff {v : String} : (c.knownValues rs).contains v = true ↔
    ∃ r ∈ rs, c.Parent r ∧ r.Gives c.identifier v := by
  simp only [knownValues, List.contains_iff_mem, List.mem_eraseDups, List.mem_flatMap,
    List.mem_filter, isParent_iff, Record.mem_slotValues_iff, and_assoc]

theorem exists_mem_uses_iff {v : String} : (∃ u ∈ c.uses rs, u.value = v) ↔
    ∃ r ∈ rs, c.Child r ∧ r.Gives c.identifier v := by
  simp only [uses, List.mem_flatMap, List.mem_filter, isChild_iff, List.mem_map,
    ← Record.mem_slotValues_iff, Record.slotValues]
  constructor
  · rintro ⟨u, ⟨r, ⟨hr, hchild⟩, e, he, rfl⟩, rfl⟩
    exact ⟨r, hr, hchild, e, he, rfl⟩
  · rintro ⟨r, hr, hchild, e, he, rfl⟩
    exact ⟨_, ⟨r, ⟨hr, hchild⟩, e, he, rfl⟩, rfl⟩

/-- The uses of values that no parent has, with their spots. -/
def missingSpots (c : Category) (rs : List Record) : List (Spot × Unmatched) :=
  (c.spots rs).filter fun x => !(c.knownValues rs).contains x.2.value

/-- The missing spots are the uses of missing values. -/
theorem mem_missingSpots_iff {spot : Spot} {u : Unmatched} :
    (spot, u) ∈ c.missingSpots rs ↔ c.Missing rs u.value ∧ c.UsedAt rs spot u := by
  rw [missingSpots, List.mem_filter, mem_spots_iff, Bool.not_eq_true', ← Bool.not_eq_true,
    contains_knownValues_iff]
  constructor
  · rintro ⟨hused, hknown⟩
    have huse : u ∈ c.uses rs := map_spots ▸ List.mem_map_of_mem (mem_spots_iff.mpr hused)
    exact ⟨⟨exists_mem_uses_iff.mp ⟨u, huse, rfl⟩, fun r hr hp hg => hknown ⟨r, hr, hp, hg⟩⟩, hused⟩
  · rintro ⟨⟨-, hknown⟩, hused⟩
    exact ⟨hused, fun ⟨r, hr, hp, hg⟩ => hknown r hr hp hg⟩

theorem exists_mem_missingSpots_iff {v : String} :
    (∃ x ∈ c.missingSpots rs, x.2.value = v) ↔ c.Missing rs v := by
  constructor
  · rintro ⟨⟨spot, u⟩, hx, rfl⟩
    exact (mem_missingSpots_iff.mp hx).1
  · intro h
    obtain ⟨u, hu, rfl⟩ := exists_mem_uses_iff.mpr h.1
    rw [← map_spots] at hu
    obtain ⟨⟨spot, u⟩, hx, rfl⟩ := List.mem_map.mp hu
    exact ⟨(spot, u), mem_missingSpots_iff.mpr ⟨h, mem_spots_iff.mp hx⟩, rfl⟩

/-- The first uses of missing values, with their spots. -/
def firstSpots (c : Category) (rs : List Record) : List (Spot × Unmatched) :=
  firsts (fun x => x.2.value) (c.missingSpots rs)

/-- Of every missing value the first use is kept. -/
theorem mem_firstSpots_iff {spot : Spot} {u : Unmatched} :
    (spot, u) ∈ c.firstSpots rs ↔ c.Missing rs u.value ∧ c.FirstUse rs spot u := by
  have horder : (c.missingSpots rs).Pairwise fun x y => x.1.Before y.1 := pairwise_spots.filter _
  rw [firstSpots, mem_firsts_iff (fun _ _ => Spot.Before.asymm) horder, mem_missingSpots_iff,
    and_assoc]
  refine and_congr_right fun hmissing => and_congr_right fun _ => ?_
  constructor
  · intro h spot' u' hused hvalue
    exact h (spot', u') (mem_missingSpots_iff.mpr ⟨hvalue ▸ hmissing, hused⟩) hvalue
  · intro h x hx hvalue
    exact h x.1 x.2 (mem_missingSpots_iff.mp hx).2 hvalue

/-- The problems are those of the first uses, in their order. -/
theorem problems_eq_map_firstSpots :
    c.problems rs = (c.firstSpots rs).map fun x => c.report x.2 := by
  have hfilter : (c.uses rs).filter (fun u => !(c.knownValues rs).contains u.value) =
      (c.missingSpots rs).map Prod.snd := by
    rw [← map_spots, List.filter_map]
    rfl
  have hunmatched : c.unmatched rs = (c.firstSpots rs).map Prod.snd := by
    rw [firstSpots, ← firsts_map (f := Unmatched.value), ← hfilter]
    rfl
  rw [problems, hunmatched, List.map_map]
  rfl

/-- A value is reported exactly when it is missing. -/
theorem exists_report_iff {v : String} :
    (∃ p ∈ c.problems rs, p.message = c.wording v) ↔ c.Missing rs v := by
  rw [problems_eq_map_firstSpots, ← exists_mem_missingSpots_iff]
  constructor
  · rintro ⟨p, hp, hv⟩
    obtain ⟨x, hx, rfl⟩ := List.mem_map.mp hp
    exact ⟨x, (firsts_sublist _).mem hx, wording_inj.mp hv⟩
  · rintro ⟨x, hx, rfl⟩
    obtain ⟨y, hy, hvalue⟩ := exists_mem_firsts (f := fun x => x.2.value) hx
    exact ⟨c.report y.2, List.mem_map_of_mem hy, congrArg c.wording hvalue⟩

/-- A missing value is reported once. -/
theorem countP_reports_eq_one {v : String} (h : c.Missing rs v) :
    ((c.problems rs).countP fun p => p.message = c.wording v) = 1 := by
  have hapart : ((c.problems rs).map Problem.message).Nodup := by
    rw [problems_eq_map_firstSpots, List.map_map]
    exact List.pairwise_map.mpr ((pairwise_firsts _).imp fun h he => h (wording_inj.mp he))
  have hmem : c.wording v ∈ (c.problems rs).map Problem.message :=
    List.mem_map.mpr (exists_report_iff.mpr h)
  calc (c.problems rs).countP (fun p => p.message = c.wording v)
      = ((c.problems rs).map Problem.message).count (c.wording v) := by
        rw [List.count_eq_countP, List.countP_map]
        rfl
    _ = 1 := by rw [hapart.count, if_pos hmem]

theorem reports_problems (c : Category) (rs : List Record) : c.Reports rs (c.problems rs) where
  reported_iff _ := exists_report_iff
  once _ h := countP_reports_eq_one h
  inOrder := ⟨c.firstSpots rs, pairwise_spots.sublist
    ((firsts_sublist _).trans List.filter_sublist), fun _ _ => mem_firstSpots_iff,
    problems_eq_map_firstSpots⟩

/-- The value is reported for the category in a check of records against categories. -/
def Reported (cs : List Category) (rs : List Record) (c : Category) (v : String) : Prop :=
  c ∈ cs ∧ ∃ p ∈ c.problems rs, p.message = c.wording v

end Category

namespace Integrity

/-- A check reports, category by category, each missing value once, at its first use and in the
order of these uses; the order of the records makes no difference to what is reported. -/
theorem check_reports (cs : List Category) (rs : List Record) :
    (∀ c : Category, c.Reports rs (c.problems rs)) ∧
    (check cs rs).problems = (cs.map fun c => c.problems rs).flatten ∧
    ∀ rs', rs.Perm rs' → ∀ c v, Category.Reported cs rs' c v ↔ Category.Reported cs rs c v := by
  refine ⟨fun c => c.reports_problems rs, rfl, fun rs' h c v => ?_⟩
  rw [Category.Reported, Category.Reported, Category.exists_report_iff, Category.exists_report_iff,
    Category.missing_congr_of_perm h]

/-- Data sets, which are referred to by `DATA_SET_ID`. -/
def dataSets : Category := ⟨"DATA_SET", "DATA_SET_ID"⟩

/-- A volume that uses three values, one of them twice, and a collection of data sets, which is
parent and child at once and gives the first of them. -/
def volumeRecords : List Record :=
  [⟨"volume.cat", none, none, "", ["VOLUME"], [],
      [⟨"DATA_SET_ID", ["A", "B"], none, [3]⟩, ⟨"DATA_SET_ID", ["B", "C"], none, []⟩]⟩,
    ⟨"collection.cat", none, none, "", ["data_set_collection"], [],
      [⟨"DATA_SET_ID", ["A"], none, [7]⟩]⟩]

/-- With the collection in front, the same values are missing. -/
theorem check_reports_reversed : volumeRecords.Perm volumeRecords.reverse ∧
    Category.Reported [dataSets] volumeRecords.reverse dataSets "B" ∧
    ¬Category.Reported [dataSets] volumeRecords.reverse dataSets "A" := by
  obtain ⟨-, -, hperm⟩ := check_reports [dataSets] volumeRecords
  have hreversed := (List.reverse_perm volumeRecords).symm
  refine ⟨hreversed, (hperm _ hreversed _ _).mpr ⟨List.mem_singleton_self _, ?_⟩, fun h => ?_⟩
  · decide
  · exact absurd ((hperm _ hreversed _ _).mp h).2 (by decide)

end Integrity

end ArchiveLabels
