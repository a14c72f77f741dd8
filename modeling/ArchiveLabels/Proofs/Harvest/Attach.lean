import ArchiveLabels.Harvest.Attach
import ArchiveLabels.Proofs.Firsts

/-!
# Items with what is found later

Problems are attached one by one, and the item of one may be there for the sake of another only. All
the same the result is told by the items and the problems as they are at first
(`CrawlItem.attach_eq`) : the last item of a source gets all problems of this source in their order,
and behind the items there is a new one for each source that has none. So each problem goes to one
item, which is of its source (`CrawlItem.perm_shares`).

If the new items are put behind the given ones beforehand, without problems, all items are treated
alike : the last one of each source gets what is of this source (`CrawlItem.attach_sharedOut`).
-/

namespace ArchiveLabels

/-- The problems of a source. -/
def Problem.ofSource (source : String) (ps : List Problem) : List Problem :=
  ps.filter fun p => p.source = source

namespace Problem

variable {source : String} {p : Problem} {ps : List Problem}

theorem mem_ofSource_iff : p ∈ ofSource source ps ↔ p ∈ ps ∧ p.source = source := by
  rw [ofSource, List.mem_filter, decide_eq_true_eq]

theorem ofSource_cons_of_eq (h : p.source = source) :
    ofSource source (p :: ps) = p :: ofSource source ps :=
  List.filter_cons_of_pos (decide_eq_true h)

theorem ofSource_cons_of_ne (h : p.source ≠ source) :
    ofSource source (p :: ps) = ofSource source ps :=
  List.filter_cons_of_neg (by simpa using h)

theorem ofSource_eq_nil_iff : ofSource source ps = [] ↔ source ∉ ps.map Problem.source := by
  simp [ofSource]

end Problem

open Problem (ofSource)

namespace CrawlItem

variable {is js : List CrawlItem} {p : Problem} {ps : List Problem}

/-- What each item gets of the problems : the last one of a source all of this source. -/
def shares (ps : List Problem) : List CrawlItem → List (List Problem)
  | [] => []
  | i :: is => (if i.source ∈ is.map source then [] else ofSource i.source ps) :: shares ps is

/-- The item with problems behind those it has. -/
def withProblems (i : CrawlItem) (ps : List Problem) : CrawlItem :=
  { i with problems := i.problems ++ ps }

/-- The items with what each of them gets of the problems. -/
def withShares (ps : List Problem) (is : List CrawlItem) : List CrawlItem :=
  List.zipWith withProblems is (shares ps is)

/-- The sources of problems that have no item, each once. -/
def newSources (is : List CrawlItem) (ps : List Problem) : List String :=
  ((ps.map Problem.source).filter fun source => source ∉ is.map CrawlItem.source).eraseDups

/-! ## Shares -/

theorem length_shares (ps : List Problem) (is : List CrawlItem) :
    (shares ps is).length = is.length := by
  induction is with
  | nil => rfl
  | cons i is ih => rw [shares, List.length_cons, List.length_cons, ih]

theorem withShares_nil (is : List CrawlItem) : withShares [] is = is := by
  induction is with
  | nil => rfl
  | cons i is ih =>
    rw [withShares] at ih
    rw [withShares, shares, List.zipWith_cons_cons, ih]
    simp [withProblems, ofSource]

/-- A problem makes no difference to items of other sources. -/
theorem shares_cons_of_notMem (h : p.source ∉ is.map source) :
    shares (p :: ps) is = shares ps is := by
  induction is with
  | nil => rfl
  | cons i is ih =>
    rw [List.map_cons, List.mem_cons, not_or] at h
    rw [shares, shares, ih h.2, Problem.ofSource_cons_of_ne h.1]

/-- An item behind others makes no difference to these, if they are of other sources. -/
theorem shares_concat {i : CrawlItem} (h : i.source ∉ is.map source) :
    shares ps (is ++ [i]) = shares ps is ++ [ofSource i.source ps] := by
  induction is with
  | nil => rfl
  | cons j is ih =>
    rw [List.map_cons, List.mem_cons, not_or] at h
    have hj : j.source ∈ (is ++ [i]).map source ↔ j.source ∈ is.map source := by
      simp [List.map_append, Ne.symm h.1]
    simp only [List.cons_append, shares, hj, ih h.2]

/-! ## One problem -/

/-- A problem of no item is attached to none. -/
theorem attachLast?_eq_none (h : p.source ∉ is.map source) : attachLast? p is = none := by
  induction is with
  | nil => rfl
  | cons i is ih =>
    rw [List.map_cons, List.mem_cons, not_or] at h
    rw [attachLast?, ih h.2]
    exact if_neg (Ne.symm h.1)

/-- A problem of an item's source is attached in front of those that come after it. -/
theorem exists_attachLast? (h : p.source ∈ is.map source) :
    ∃ js, attachLast? p is = some js ∧ js.map source = is.map source ∧
      ∀ ps, withShares ps js = withShares (p :: ps) is := by
  induction is with
  | nil => cases h
  | cons i is ih =>
    by_cases hp : p.source ∈ is.map source
    · obtain ⟨js, hjs, hsources, hshares⟩ := ih hp
      refine ⟨i :: js, by rw [attachLast?, hjs], by rw [List.map_cons, List.map_cons, hsources],
        fun ps => ?_⟩
      have hi : (if i.source ∈ js.map source then [] else ofSource i.source ps) =
          if i.source ∈ is.map source then [] else ofSource i.source (p :: ps) := by
        rw [hsources]
        split
        · rfl
        · rename_i hn
          have hne : p.source ≠ i.source := fun he => hn (he ▸ hp)
          rw [Problem.ofSource_cons_of_ne hne]
      rw [withShares, withShares, shares, shares, List.zipWith_cons_cons,
        List.zipWith_cons_cons, hi]
      exact congrArg _ (hshares ps)
    · have hi : i.source = p.source := by
        rw [List.map_cons, List.mem_cons] at h
        exact (h.resolve_right hp).symm
      refine ⟨{ i with problems := i.problems ++ [p] } :: is, ?_, rfl, fun ps => ?_⟩
      · rw [attachLast?, attachLast?_eq_none hp]
        exact if_pos hi
      · have hn : i.source ∉ is.map source := hi ▸ hp
        rw [withShares, withShares, shares, shares, List.zipWith_cons_cons, List.zipWith_cons_cons,
          if_neg hn, if_neg hn, Problem.ofSource_cons_of_eq hi.symm, shares_cons_of_notMem hp]
        simp only [withProblems, List.append_assoc, List.singleton_append]

/-! ## All problems -/

theorem newSources_cons_of_mem (h : p.source ∈ is.map source) :
    newSources is (p :: ps) = newSources is ps := by
  rw [newSources, newSources, List.map_cons, List.filter_cons_of_neg (by simpa using h)]

/-- The first problem without an item makes the first new one. -/
theorem newSources_cons_of_notMem {i : CrawlItem} (hi : i.source = p.source)
    (h : p.source ∉ is.map source) :
    newSources is (p :: ps) = p.source :: newSources (is ++ [i]) ps := by
  rw [newSources, newSources, List.map_cons, List.filter_cons_of_pos (by simpa using h),
    List.eraseDups_cons, List.filter_filter]
  refine congrArg (fun ss => p.source :: List.eraseDups ss) (List.filter_congr fun source _ => ?_)
  by_cases hs : source = p.source <;> simp [hi, hs]

/-- New sources are those of problems and of no item. -/
theorem mem_newSources_iff {source : String} : source ∈ newSources is ps ↔
    source ∈ ps.map Problem.source ∧ source ∉ is.map CrawlItem.source := by
  rw [newSources, List.mem_eraseDups, List.mem_filter, decide_eq_true_eq]

/-- The items with their shares come first, then the new ones. -/
theorem attach_eq (is : List CrawlItem) (ps : List Problem) :
    attach is ps =
      withShares ps is ++ (newSources is ps).map fun source => ⟨source, ofSource source ps⟩ := by
  induction ps generalizing is with
  | nil => simp [attach, withShares_nil, newSources]
  | cons p ps ih =>
    have hattach : attach is (p :: ps) = attach (attachOne is p) ps := rfl
    rw [hattach, ih]
    -- Sources that are new behind `p` are not the source of `p`, so that `p` is none of theirs.
    have hlater (js : List CrawlItem) (hp : p.source ∈ js.map source) :
        ((newSources js ps).map fun source => CrawlItem.mk source (ofSource source ps)) =
          (newSources js ps).map fun source => ⟨source, ofSource source (p :: ps)⟩ := by
      refine List.map_congr_left fun source hs => ?_
      rw [Problem.ofSource_cons_of_ne]
      rintro rfl
      exact (mem_newSources_iff.mp hs).2 hp
    by_cases hp : p.source ∈ is.map source
    · obtain ⟨js, hjs, hsources, hshares⟩ := exists_attachLast? hp
      have hnew : newSources js ps = newSources is ps := by rw [newSources, newSources, hsources]
      rw [attachOne, hjs, Option.getD_some, hshares, hnew, newSources_cons_of_mem hp, hlater is hp]
    · have hlast : p.source ∈ (is ++ [CrawlItem.mk p.source [p]]).map source := by simp
      rw [attachOne, attachLast?_eq_none hp, Option.getD_none, hlater _ hlast,
        newSources_cons_of_notMem (i := ⟨p.source, [p]⟩) rfl hp, List.map_cons, withShares,
        shares_concat hp, List.zipWith_append (length_shares ps is).symm,
        Problem.ofSource_cons_of_eq rfl, withShares, shares_cons_of_notMem hp]
      simp [withProblems]

theorem length_attach (is : List CrawlItem) (ps : List Problem) :
    (attach is ps).length = is.length + (newSources is ps).length := by
  rw [attach_eq, List.length_append, List.length_map, withShares, List.length_zipWith,
    length_shares, Nat.min_self]

/-! ## Where problems go -/

/-- Attaching loses no problem and adds none but the one. -/
theorem perm_of_attachLast? (h : attachLast? p is = some js) :
    (js.flatMap problems).Perm (p :: is.flatMap problems) := by
  induction is generalizing js with
  | nil => cases h
  | cons i is ih =>
    rw [attachLast?] at h
    split at h
    · rename_i js' hjs
      obtain rfl := Option.some.inj h
      rw [List.flatMap_cons, List.flatMap_cons]
      exact ((ih hjs).append_left i.problems).trans List.perm_middle
    · split at h
      · obtain rfl := Option.some.inj h
        rw [List.flatMap_cons, List.flatMap_cons, List.append_assoc, List.singleton_append]
        exact List.perm_middle
      · cases h

/-- Problems that are attached are added to those that the items have. -/
theorem perm_attach (is : List CrawlItem) (ps : List Problem) :
    ((attach is ps).flatMap problems).Perm (is.flatMap problems ++ ps) := by
  induction ps generalizing is with
  | nil => rw [List.append_nil, attach, List.foldl_nil]
  | cons p ps ih =>
    have hone : ((attachOne is p).flatMap problems).Perm (p :: is.flatMap problems) := by
      unfold attachOne
      cases h : attachLast? p is with
      | some js => exact perm_of_attachLast? h
      | none => simp
    exact (ih (attachOne is p)).trans ((hone.append_right ps).trans List.perm_middle.symm)

/-- The problems with the shares are those of before and the shares. -/
theorem perm_withShares (ps : List Problem) (is : List CrawlItem) :
    ((withShares ps is).flatMap problems).Perm
      (is.flatMap problems ++ (shares ps is).flatten) := by
  induction is with
  | nil => exact .refl []
  | cons i is ih =>
    rw [withShares, shares, List.zipWith_cons_cons, List.flatMap_cons, List.flatMap_cons,
      List.flatten_cons, withProblems, List.append_assoc, List.append_assoc]
    refine List.Perm.append_left i.problems ?_
    exact (ih.append_left _).trans (List.perm_append_comm_assoc _ _ _)

/-- Each problem is attached to one item, be it new or not. -/
theorem perm_shares (is : List CrawlItem) (ps : List Problem) :
    ((shares ps is).flatten ++ (newSources is ps).flatMap fun source => ofSource source ps).Perm
      ps := by
  have hattach := perm_attach is ps
  rw [attach_eq, List.flatMap_append, List.flatMap_map] at hattach
  have hall := ((perm_withShares ps is).append_right _).symm.trans hattach
  rw [List.append_assoc] at hall
  exact (List.perm_append_left_iff (is.flatMap problems)).mp hall

variable {α : Type}

/-- What an item gets is of its source. -/
theorem eq_of_mem_zip_shares (item : α → CrawlItem) {as : List α} {a : α} {qs : List Problem}
    (h : (a, qs) ∈ as.zip (shares ps (as.map item))) :
    qs = [] ∨ qs = ofSource (item a).source ps := by
  induction as with
  | nil => cases h
  | cons b as ih =>
    rw [List.map_cons, shares, List.zip_cons_cons, List.mem_cons] at h
    rcases h with h | h
    · obtain ⟨rfl, rfl⟩ := Prod.mk.inj h
      split
      · exact .inl rfl
      · exact .inr rfl
    · exact ih h

/-- Each item gets its own share. -/
theorem withShares_map (item : α → CrawlItem) (as : List α) (ps : List Problem) :
    withShares ps (as.map item) =
      (as.zip (shares ps (as.map item))).map fun y => (item y.1).withProblems y.2 := by
  rw [withShares, List.zipWith_map_left, List.zip_eq_zipWith, List.map_zipWith]

/-! ## New items beforehand -/

/-- Items of the given sources, without problems. -/
def fresh (sources : List String) : List CrawlItem :=
  sources.map fun source => ⟨source, []⟩

/-- What each of the items gets of the problems : the last one of a source all of this source, in
their order, and each problem is given away once. -/
structure SharedOut (ps : List Problem) (is : List CrawlItem) (shares : List (List Problem)) :
    Prop where
  length : shares.length = is.length
  share : ∀ k (hk : k < is.length) (hk' : k < shares.length), shares[k] =
    if is[k].source ∈ (is.drop (k + 1)).map source then [] else ofSource is[k].source ps
  perm : shares.flatten.Perm ps

/-- A fresh item gets all the problems of its source. -/
theorem withShares_append_fresh {sources : List String} (hn : sources.Nodup)
    (h : ∀ source ∈ sources, source ∉ is.map CrawlItem.source) :
    withShares ps (is ++ fresh sources) =
      withShares ps is ++ sources.map fun source => ⟨source, ofSource source ps⟩ := by
  induction sources generalizing is with
  | nil => simp [fresh]
  | cons s sources ih =>
    obtain ⟨hs, hn⟩ := List.nodup_cons.mp hn
    have hfresh : is ++ fresh (s :: sources) = is ++ fresh [s] ++ fresh sources := by simp [fresh]
    have hnext : ∀ source ∈ sources, source ∉ (is ++ fresh [s]).map CrawlItem.source := by
      intro source hsource hmem
      rw [List.map_append, List.mem_append] at hmem
      rcases hmem with hmem | hmem
      · exact h source (List.mem_cons_of_mem s hsource) hmem
      · obtain rfl : source = s := List.mem_singleton.mp hmem
        exact hs hsource
    have hlast : withShares ps (is ++ fresh [s]) = withShares ps is ++ [⟨s, ofSource s ps⟩] := by
      rw [withShares, fresh, List.map_singleton, shares_concat (h s List.mem_cons_self),
        List.zipWith_append (length_shares ps is).symm]
      rfl
    rw [hfresh, ih hn hnext, hlast, List.append_assoc]
    rfl

/-- The last item of a source gets its problems, and the others none. -/
theorem getElem_shares (k : Nat) (hk : k < is.length) (hk' : k < (shares ps is).length) :
    (shares ps is)[k] =
      if is[k].source ∈ (is.drop (k + 1)).map source then [] else ofSource is[k].source ps := by
  induction is generalizing k with
  | nil => cases hk
  | cons i is ih =>
    cases k with
    | zero => rfl
    | succ k => exact ih k (Nat.lt_of_succ_lt_succ hk) (Nat.lt_of_succ_lt_succ hk')

/-- Attaching is sharing out, over the items and the fresh ones. -/
theorem attach_eq_withShares (is : List CrawlItem) (ps : List Problem) :
    attach is ps = withShares ps (is ++ fresh (newSources is ps)) := by
  have hn : (newSources is ps).Nodup := nodup_eraseDups _
  rw [attach_eq, withShares_append_fresh hn fun source hs => (mem_newSources_iff.mp hs).2]

theorem flatMap_problems_append_fresh (is : List CrawlItem) (sources : List String) :
    (is ++ fresh sources).flatMap problems = is.flatMap problems := by
  simp [fresh, List.flatMap_map]

theorem sharedOut_shares (is : List CrawlItem) (ps : List Problem) :
    SharedOut ps (is ++ fresh (newSources is ps)) (shares ps (is ++ fresh (newSources is ps))) where
  length := length_shares ps _
  share := getElem_shares
  perm := by
    have hattach := perm_attach is ps
    rw [attach_eq_withShares] at hattach
    have hall := (perm_withShares ps (is ++ fresh (newSources is ps))).symm.trans hattach
    rw [flatMap_problems_append_fresh] at hall
    exact (List.perm_append_left_iff (is.flatMap problems)).mp hall

/-- Problems are shared out to the given items and, behind them, to new ones, of the sources that no
given item has, in the order in which these first occur. An item keeps its source and its own
problems, which come first. So no problem is lost or doubled. -/
theorem attach_sharedOut (is : List CrawlItem) (ps : List Problem) :
    ∃ (sources : List String) (shares : List (List Problem)),
      (∀ s, s ∈ sources ↔ s ∈ ps.map Problem.source ∧ s ∉ is.map source) ∧
      InOrderOf (ps.map Problem.source) sources ∧
      SharedOut ps (is ++ fresh sources) shares ∧
      attach is ps = List.zipWith withProblems (is ++ fresh sources) shares ∧
      ((attach is ps).flatMap problems).Perm (is.flatMap problems ++ ps) :=
  ⟨newSources is ps, shares ps (is ++ fresh (newSources is ps)), fun _ => mem_newSources_iff,
    inOrderOf_eraseDups_filter _ _, sharedOut_shares is ps, attach_eq_withShares is ps,
    perm_attach is ps⟩

end CrawlItem

end ArchiveLabels
