import ArchiveLabels.Crawl.Checkpoint
import ArchiveLabels.Proofs.Path.Absolute
import Mathlib.Data.List.Lex
import Mathlib.Data.Prod.Lex
import Mathlib.Data.String.Basic

/-!
# Tables and the order of their keys

`Table.put` and `Table.get?` find the place of a key by an order that may take several keys for
one. `Table.Ranked` : the order is that of the ranks of keys in a linear order. Then a table gives
what was put last under a key of the same rank (`Table.get?_put`), however it is sorted.

Paths are ranked by their components (`Path.ranked`), so that a checkpoint knows a path by the
components of its absolute spelling, its `FileSystem.key` : it gives the time that was kept last for
a path of the same key (`Checkpoint.get?_put`).
-/

namespace ArchiveLabels

namespace Table

variable {κ ι ν : Type} [LinearOrder ι] {less : κ → κ → Bool} {rank : κ → ι}

/-- Keys are ordered by their ranks. -/
def Ranked (less : κ → κ → Bool) (rank : κ → ι) : Prop :=
  ∀ a b, less a b = true ↔ rank a < rank b

/-- A lookup stops at the first key not less. -/
theorem get?_cons (h : Ranked less rank) (k : κ) (e : κ × ν) (es : Table κ ν) :
    get? less k (e :: es) =
      if rank e.1 < rank k then get? less k es
      else if rank k < rank e.1 then none else some e.2 := by
  simp only [get?, h _ _]

/-- A put finds its place in front of the first key that is greater. -/
theorem put_cons (h : Ranked less rank) (k : κ) (v : ν) (e : κ × ν) (es : Table κ ν) :
    put less k v (e :: es) =
      if rank e.1 < rank k then e :: put less k v es
      else if rank k < rank e.1 then (k, v) :: e :: es else (e.1, v) :: es := by
  simp only [put, h _ _]

/-- A table gives what was put last under a key of the same rank. -/
theorem get?_put (h : Ranked less rank) (t : Table κ ν) (k l : κ) (v : ν) :
    (t.put less k v).get? less l = if rank l = rank k then some v else t.get? less l := by
  induction t with
  | nil =>
    rw [put, get?_cons h]
    rcases lt_trichotomy (rank l) (rank k) with hlt | heq | hgt
    · simp [hlt, hlt.ne, hlt.not_gt, get?]
    · simp [heq]
    · simp [hgt, hgt.ne', get?]
  | cons e es ih =>
    rw [put_cons h]
    rcases lt_trichotomy (rank e.1) (rank k) with hek | hek | hke
    · rw [if_pos hek, get?_cons h, ih, get?_cons h]
      by_cases hlk : rank l = rank k
      · rw [if_pos hlk, if_pos (hlk ▸ hek), if_pos hlk]
      · rw [if_neg hlk, if_neg hlk]
    · rw [if_neg hek.not_lt, if_neg hek.not_gt]
      rcases lt_trichotomy (rank l) (rank k) with hlk | hlk | hlk
      · simp [get?_cons h, hek, hlk, hlk.ne, hlk.not_gt]
      · simp [get?_cons h, hek, hlk]
      · simp [get?_cons h, hek, hlk, hlk.ne']
    · rw [if_neg hke.not_gt, if_pos hke]
      rcases lt_trichotomy (rank l) (rank k) with hlk | hlk | hlk
      · have hle := hlk.trans hke
        simp [get?_cons h, hlk, hlk.ne, hlk.not_gt, hle, hle.not_gt]
      · simp [get?_cons h, hlk]
      · rw [get?_cons h, if_pos hlk, if_neg hlk.ne']

/-- Puts of different keys may be done in either order. -/
theorem put_put_of_lt (h : Ranked less rank) {k l : κ} (hlt : rank k < rank l) (t : Table κ ν)
    (v w : ν) : (t.put less k v).put less l w = (t.put less l w).put less k v := by
  induction t with
  | nil => simp [put, h _ _, hlt, hlt.not_gt]
  | cons e es ih =>
    rcases lt_trichotomy (rank e.1) (rank k) with hek | hek | hke
    · have hel := hek.trans hlt
      simp [put_cons h, hek, hel, ih]
    · simp [put_cons h, hek, hlt]
    · rcases lt_trichotomy (rank e.1) (rank l) with hel | hel | hle
      · simp [put_cons h, hke, hke.not_gt, hel, hlt]
      · simp [put_cons h, hel, hlt, hlt.not_gt]
      · simp [put_cons h, hke, hke.not_gt, hle, hle.not_gt, hlt, hlt.not_gt]

/-- Values of keys of two ranks may be set in either order. -/
theorem put_put_comm (h : Ranked less rank) {k l : κ} (hne : rank k ≠ rank l) (t : Table κ ν)
    (v w : ν) : (t.put less k v).put less l w = (t.put less l w).put less k v := by
  rcases lt_or_gt_of_ne hne with hlt | hgt
  · exact put_put_of_lt h hlt t v w
  · exact (put_put_of_lt h hgt t w v).symm

/-- Keys of one rank have one value. -/
theorem get?_eq_of_rank_eq (h : Ranked less rank) {k l : κ} (hr : rank k = rank l)
    (t : Table κ ν) : get? less k t = get? less l t := by
  induction t with
  | nil => rfl
  | cons e es ih => rw [get?_cons h, get?_cons h, ih, hr]

/-! ### Ascending tables -/

/-- The keys of a table ascend. -/
def Ascending (rank : κ → ι) (t : Table κ ν) : Prop :=
  t.Pairwise fun e f => rank e.1 < rank f.1

theorem mem_put {e : κ × ν} {k : κ} {v : ν} {t : Table κ ν} (h : Ranked less rank)
    (he : e ∈ t.put less k v) : rank e.1 = rank k ∧ e.2 = v ∨ e ∈ t := by
  induction t with
  | nil =>
    obtain rfl := List.mem_singleton.mp he
    exact .inl ⟨rfl, rfl⟩
  | cons f fs ih =>
    rw [put_cons h] at he
    split_ifs at he with hfk hkf
    · rcases List.mem_cons.mp he with rfl | he
      · exact .inr List.mem_cons_self
      · exact (ih he).imp_right (List.mem_cons_of_mem f)
    · rcases List.mem_cons.mp he with rfl | he
      · exact .inl ⟨rfl, rfl⟩
      · exact .inr he
    · rcases List.mem_cons.mp he with rfl | he
      · exact .inl ⟨le_antisymm (not_lt.mp hkf) (not_lt.mp hfk), rfl⟩
      · exact .inr (List.mem_cons_of_mem f he)

/-- A table keeps the spellings of its keys and of what is put into it. -/
theorem fst_of_mem_put {t : Table κ ν} {e : κ × ν} {k : κ} {v : ν} (he : e ∈ t.put less k v) :
    e.1 = k ∨ ∃ f ∈ t, e.1 = f.1 := by
  induction t with
  | nil =>
    obtain rfl := List.mem_singleton.mp he
    exact .inl rfl
  | cons f fs ih =>
    simp only [put] at he
    split_ifs at he
    · rcases List.mem_cons.mp he with rfl | he
      · exact .inr ⟨_, List.mem_cons_self, rfl⟩
      · rcases ih he with hfst | ⟨g, hg, hfst⟩
        · exact .inl hfst
        · exact .inr ⟨g, List.mem_cons_of_mem f hg, hfst⟩
    · rcases List.mem_cons.mp he with rfl | he
      · exact .inl rfl
      · exact .inr ⟨e, he, rfl⟩
    · rcases List.mem_cons.mp he with rfl | he
      · exact .inr ⟨f, List.mem_cons_self, rfl⟩
      · exact .inr ⟨e, List.mem_cons_of_mem f he, rfl⟩

/-- A put keeps the keys ascending. -/
theorem Ascending.put {t : Table κ ν} (ht : Ascending rank t) (h : Ranked less rank) (k : κ)
    (v : ν) : Ascending rank (t.put less k v) := by
  induction t with
  | nil => exact List.pairwise_singleton _ _
  | cons f fs ih =>
    obtain ⟨hf, hfs⟩ := List.pairwise_cons.mp ht
    rw [put_cons h]
    split_ifs with hfk hkf
    · refine List.pairwise_cons.mpr ⟨fun e he => ?_, ih hfs⟩
      rcases mem_put h he with ⟨hek, -⟩ | he
      · rwa [hek]
      · exact hf e he
    · refine List.pairwise_cons.mpr ⟨fun e he => ?_, ht⟩
      rcases List.mem_cons.mp he with rfl | he
      · exact hkf
      · exact hkf.trans (hf e he)
    · exact List.pairwise_cons.mpr ⟨hf, hfs⟩

/-- In an ascending table a key has the value that stands beside it. -/
theorem get?_eq_some_iff (h : Ranked less rank) {t : Table κ ν} (ht : Ascending rank t) {k : κ}
    {v : ν} : t.get? less k = some v ↔ ∃ e ∈ t, rank e.1 = rank k ∧ e.2 = v := by
  induction t with
  | nil => simp [get?]
  | cons e es ih =>
    obtain ⟨he, hes⟩ := List.pairwise_cons.mp ht
    rw [get?_cons h]
    rcases lt_trichotomy (rank e.1) (rank k) with hlt | heq | hgt
    · simp [hlt, hlt.ne, ih hes]
    · have hrest : ∀ f ∈ es, rank f.1 ≠ rank k := fun f hf => heq ▸ (he f hf).ne'
      simp only [heq, lt_irrefl, if_false, List.exists_mem_cons_iff, true_and, Option.some.injEq]
      refine ⟨.inl, fun h => h.resolve_right ?_⟩
      rintro ⟨f, hf, hk, -⟩
      exact hrest f hf hk
    · have hrest : ∀ f ∈ es, rank f.1 ≠ rank k := fun f hf => (hgt.trans (he f hf)).ne'
      simp only [hgt, hgt.not_gt, if_true, if_false, List.exists_mem_cons_iff, hgt.ne', false_and,
        false_or, reduceCtorEq, false_iff]
      rintro ⟨f, hf, hk, -⟩
      exact hrest f hf hk

/-- A greater key goes to the end. -/
theorem put_eq_append (h : Ranked less rank) {t : Table κ ν} {k : κ} (v : ν)
    (hk : ∀ e ∈ t, rank e.1 < rank k) : t.put less k v = t ++ [(k, v)] := by
  induction t with
  | nil => rfl
  | cons f fs ih =>
    rw [put_cons h, if_pos (hk f List.mem_cons_self), ih fun e he => hk e (List.mem_cons_of_mem f he)]
    rfl

/-- An ascending list of keys and values is the table of them. -/
theorem ofList_of_ascending (h : Ranked less rank) {es : List (κ × ν)} (hes : Ascending rank es) :
    ofList less es = es := by
  have hfold : ∀ (t es : List (κ × ν)), Ascending rank (t ++ es) →
      es.foldl (fun t e => Table.put less e.1 e.2 t) t = t ++ es := by
    intro t es
    induction es generalizing t with
    | nil => simp
    | cons e es ih =>
      intro ht
      have hlt : ∀ f ∈ t, rank f.1 < rank e.1 := fun f hf =>
        (List.pairwise_append.mp ht).2.2 f hf e List.mem_cons_self
      rw [List.append_cons] at ht
      rw [List.foldl_cons, put_eq_append h e.2 hlt, List.append_cons t e es]
      exact ih (t ++ [e]) ht
  exact hfold [] es hes

end Table

namespace Component

/-- The rank of a component : that of its kind, then that of its name. -/
def rank : Component → ℕ ×ₗ String
  | root => toLex (0, "")
  | here => toLex (1, "")
  | up => toLex (2, "")
  | name n => toLex (3, n)

/-- Components are compared by their ranks. -/
theorem isLess_iff (a b : Component) : a.isLess b = true ↔ a.rank < b.rank := by
  cases a <;> cases b <;> simp [isLess, rank, Prod.Lex.toLex_lt_toLex]

theorem rank_injective : Function.Injective rank := by
  intro a b h
  cases a <;> cases b <;> simp_all [rank]

end Component

namespace Path

/-- The rank of a path : those of its components. -/
def rank (p : Path) : List (ℕ ×ₗ String) :=
  p.components.map Component.rank

theorem componentsLess_iff (as bs : List Component) :
    componentsLess as bs = true ↔ as.map Component.rank < bs.map Component.rank := by
  induction as generalizing bs with
  | nil => cases bs <;> simp [componentsLess]
  | cons a as ih =>
    cases bs with
    | nil => simp [componentsLess]
    | cons b bs =>
      simp only [componentsLess, List.map_cons, List.cons_lt_cons_iff, Bool.or_eq_true,
        Bool.and_eq_true, Bool.not_eq_true', ← Bool.not_eq_true, Component.isLess_iff, ih]
      constructor
      · rintro (hab | ⟨hba, hlt⟩)
        · exact .inl hab
        · exact (not_lt.mp hba).lt_or_eq.imp_right fun he => ⟨he, hlt⟩
      · rintro (hab | ⟨he, hlt⟩)
        · exact .inl hab
        · exact .inr ⟨he.not_gt, hlt⟩

theorem ranked : Table.Ranked isLess rank := fun p q => componentsLess_iff p.components q.components

theorem rank_eq_iff {p q : Path} : p.rank = q.rank ↔ p.components = q.components :=
  (List.map_injective_iff.mpr Component.rank_injective).eq_iff

end Path

/-- What a checkpoint knows a path by. -/
def FileSystem.key (fs : FileSystem) (p : Path) : List Component :=
  (fs.absolute p).components

namespace FileSystem

variable {fs : FileSystem} {p q : Path}

/-- Paths of one key have one absolute spelling. -/
theorem absolute_eq_of_key_eq (hh : fs.HasProperHere) (hp : p.text ≠ "") (hq : q.text ≠ "")
    (h : fs.key p = fs.key q) : fs.absolute p = fs.absolute q := by
  unfold key at h
  rw [components_absolute hh hp, components_absolute hh hq] at h
  exact (absolute_inj hh hp hq).mpr (List.cons.inj h).2

/-- Paths of one key have one file name, if they have one at all. -/
theorem fileName?_eq_of_key_eq (hh : fs.HasProperHere) {m n : String} (hp : p.fileName? = some m)
    (hq : q.fileName? = some n) (h : fs.key p = fs.key q) : p.fileName? = q.fileName? := by
  unfold key at h
  rw [components_absolute hh (Path.text_ne_of_fileName? hp),
    components_absolute hh (Path.text_ne_of_fileName? hq)] at h
  have hlast : (fs.trail p).getLast? = (fs.trail q).getLast? :=
    congrArg List.getLast? (List.cons.inj h).2
  rw [getLast?_trail hp, getLast?_trail hq] at hlast
  rw [hp, hq, Component.name.inj (Option.some.inj hlast)]

end FileSystem

/-- A checkpoint gives the time that was kept last for a path of the same key. -/
theorem Checkpoint.get?_put (k : Checkpoint) (fs : FileSystem) (p q : Path) (t : Timestamp) :
    (k.put fs.workingDirectory p t).get? fs.workingDirectory q =
      if fs.key q = fs.key p then some t else k.get? fs.workingDirectory q := by
  simp only [get?, put, Table.get?_put Path.ranked, Path.rank_eq_iff]
  rfl

/-- Times of files of two keys may be kept in either order. -/
theorem Checkpoint.put_put_comm (k : Checkpoint) {fs : FileSystem} {p q : Path} (t u : Timestamp)
    (h : fs.key p ≠ fs.key q) : (k.put fs.workingDirectory p t).put fs.workingDirectory q u =
      (k.put fs.workingDirectory q u).put fs.workingDirectory p t :=
  congrArg Checkpoint.mk (Table.put_put_comm Path.ranked (mt Path.rank_eq_iff.mp h) k.entries t u)

/-- Paths of one key share a time in the checkpoint. -/
theorem Checkpoint.get?_eq_of_key_eq (k : Checkpoint) {fs : FileSystem} {p q : Path}
    (h : fs.key p = fs.key q) : k.get? fs.workingDirectory p = k.get? fs.workingDirectory q :=
  Table.get?_eq_of_rank_eq Path.ranked (Path.rank_eq_iff.mpr h) k.entries

end ArchiveLabels
