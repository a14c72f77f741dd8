import ArchiveLabels.Proofs.FileSystem.Leads
import ArchiveLabels.Proofs.Path.Absolute

/-!
# Paths of one trail

Two spellings of a path may differ in doubled slashes, in a `.` inside and in a slash at the end,
and one may start at the root where the other starts at the current directory. If both lead to
something, they lead to the same place (`FileSystem.found_eq_of_trail_eq`) : segments that name
nothing may be dropped (`FileSystem.Leads.trims`), and names of directories may be gone through one
by one or at once (`FileSystem.Leads.of_append`).
-/

namespace ArchiveLabels.FileSystem

variable {root : Directory} {here place : List String} {e : Entry} {n : Nat}

/-! ## Segments that name nothing -/

/-- Some segments of the first list that are empty or `.` are missing in the second. -/
inductive Trims : List String → List String → Prop where
  /-- There are no segments. -/
  | nil : Trims [] []
  /-- A segment is there. -/
  | keep {xs ys : List String} (s : String) (h : Trims xs ys) : Trims (s :: xs) (s :: ys)
  /-- A segment is missing. -/
  | drop {xs ys : List String} {s : String} (hs : s = "" ∨ s = ".") (h : Trims xs ys) :
    Trims (s :: xs) ys

theorem Trims.append_left {xs ys : List String} (h : Trims xs ys) :
    ∀ zs : List String, Trims (zs ++ xs) (zs ++ ys)
  | [] => h
  | z :: zs => .keep z (h.append_left zs)

/-- A segment that names something is not missing. -/
theorem Trims.cons_inv {xs ys : List String} {s : String} (h : Trims (s :: xs) ys)
    (hs : ¬(s = "" ∨ s = ".")) : ∃ zs, ys = s :: zs ∧ Trims xs zs := by
  cases h with
  | keep _ h => exact ⟨_, rfl, h⟩
  | drop hd => exact (hs hd).elim

/-- The names in a path are its segments without those that name nothing. -/
theorem trims_inner (p : Path) : Trims p.segments (p.inner.map Component.text) := by
  unfold Path.inner
  have hslash (s : String) (hs : s ∈ p.segments) := Path.slash_not_mem_of_mem_segments hs
  revert hslash
  induction p.segments with
  | nil => exact fun _ => .nil
  | cons s rest ih =>
    intro hslash
    have hrest := ih fun t ht => hslash t (List.mem_cons_of_mem s ht)
    cases hc : Path.innerComponent? s with
    | none =>
      rw [List.filterMap_cons_none hc]
      refine .drop ?_ hrest
      unfold Path.innerComponent? at hc
      split at hc
      · simpa using ‹(decide (s = "") || decide (s = ".")) = true›
      · split at hc <;> cases hc
    | some c =>
      obtain ⟨-, rfl⟩ := Path.inner_of_innerComponent? (hslash s List.mem_cons_self) hc
      rw [List.filterMap_cons_some hc]
      exact .keep c.text hrest

/-- Segments that name nothing may be dropped on the way to something. -/
theorem Leads.trims {r : Place} {xs ys : List String} (h : Leads root true n here xs r)
    (hr : r = .found place e) (ht : Trims xs ys) : Leads root true n here ys r := by
  induction h generalizing ys with
  | arrived h =>
    cases ht
    exact .arrived h
  | skip hd hs _ ih =>
    cases ht with
    | keep _ ht => exact .skip hd hs (ih hr ht)
    | drop _ ht => exact ih hr ht
  | up hd _ ih =>
    obtain ⟨zs, rfl, hz⟩ := ht.cons_inv (by decide)
    exact .up hd (ih hr hz)
  | vacant => cases hr
  | stay _ _ hl => cases hl
  | @link _ _ _ _ _ target hs hg _ _ ih =>
    obtain ⟨zs, rfl, hz⟩ := ht.cons_inv hs.not_blank
    exact .link hs hg (fun _ => rfl) (ih hr (hz.append_left target.segments))
  | enter hs hg hf _ ih =>
    obtain ⟨zs, rfl, hz⟩ := ht.cons_inv hs.not_blank
    exact .enter hs hg hf (ih hr hz)

/-! ## Names of directories -/

/-- What lies behind the name of a directory is found from that directory. -/
theorem Leads.of_cons {last : Bool} {s : String} {rest : List String} {r : Place}
    (hf : root.look (s :: here) = some .directory) (hs : (Component.name s).Inner)
    (h : Leads root last n here (s :: rest) r) : Leads root last n (s :: here) rest r := by
  cases h with
  | skip _ hb => exact (hb.elim hs.1 hs.2.1).elim
  | up => exact (hs.2.2.1 rfl).elim
  | vacant _ _ hg => cases hg.symm.trans hf
  | stay _ hg => cases hg.symm.trans hf
  | link _ hg => cases hg.symm.trans hf
  | enter _ _ _ h => exact h

/-- What lies behind names of directories is found from the last of them. -/
theorem Leads.of_append {last : Bool} {names segments : List String} {r : Place}
    (hd : root.look (names.reverse ++ here) = some .directory)
    (hi : ∀ n ∈ names, (Component.name n).Inner)
    (h : Leads root last n here (names ++ segments) r) :
    Leads root last n (names.reverse ++ here) segments r := by
  induction names generalizing here with
  | nil => exact h
  | cons s names ih =>
    rw [List.reverse_cons, List.append_assoc] at hd ⊢
    have hf := Directory.look_eq_directory_of_append names.reverse hd
    exact ih hd (fun m hm => hi m (List.mem_cons_of_mem s hm))
      (Leads.of_cons hf (hi s List.mem_cons_self) h)

/-! ## Places -/

variable {fs : FileSystem} {p q : Path}

/-- What the segments of a path lead to is found from the current directory by the rest of its
trail, if the current directory is on it. -/
theorem leads_of_trail (hh : fs.HasProperHere)
    (h : Leads fs.root true linkBound (fs.start p) p.segments (.found place e))
    {cs : List Component} (hc : fs.trail p = fs.here.reverse.map .name ++ cs)
    (hd : fs.root.look fs.here = some .directory) :
    Leads fs.root true linkBound fs.here (cs.map Component.text) (.found place e) := by
  have hf := h.trims rfl (trims_inner p)
  unfold trail at hc
  unfold start at hf
  cases ha : p.isAbsolute with
  | false =>
    rw [ha, if_neg Bool.false_ne_true] at hc hf
    rwa [List.append_cancel_left hc] at hf
  | true =>
    rw [ha, if_pos rfl, List.nil_append] at hc
    rw [ha, if_pos rfl, hc, List.map_append, List.map_map,
      show Component.text ∘ Component.name = id from rfl, List.map_id] at hf
    have := hf.of_append (by simpa using hd) fun n hn => hh n (List.mem_reverse.mp hn)
    rwa [List.reverse_reverse, List.append_nil] at this

/-- The segments of paths of one trail lead to one place. -/
theorem Leads.eq_of_trail_eq (hh : fs.HasProperHere) {place' : List String} {e' : Entry}
    (hp : Leads fs.root true linkBound (fs.start p) p.segments (.found place e))
    (hq : Leads fs.root true linkBound (fs.start q) q.segments (.found place' e'))
    (ht : fs.trail p = fs.trail q) : place = place' ∧ e = e' := by
  have same {here segments : List String}
      (hx : Leads fs.root true linkBound here segments (.found place e))
      (hy : Leads fs.root true linkBound here segments (.found place' e')) :
      place = place' ∧ e = e' := by
    simpa using hx.follow.symm.trans hy.follow
  cases hpa : p.isAbsolute with
  | false =>
    have htp : fs.trail p = fs.here.reverse.map .name ++ p.inner := by simp [trail, hpa]
    have hd := hp.directory (Path.segments_ne_nil p)
    rw [start, hpa, if_neg Bool.false_ne_true] at hd
    exact same (leads_of_trail hh hp htp hd) (leads_of_trail hh hq (ht ▸ htp) hd)
  | true =>
    cases hqa : q.isAbsolute with
    | false =>
      have htq : fs.trail q = fs.here.reverse.map .name ++ q.inner := by simp [trail, hqa]
      have hd := hq.directory (Path.segments_ne_nil q)
      rw [start, hqa, if_neg Bool.false_ne_true] at hd
      exact same (leads_of_trail hh hp (ht ▸ htq) hd) (leads_of_trail hh hq htq hd)
    | true =>
      have hi : p.inner = q.inner := by simpa [trail, hpa, hqa] using ht
      have hfp := hp.trims rfl (trims_inner p)
      have hfq := hq.trims rfl (trims_inner q)
      rw [start, hpa, hi] at hfp
      rw [start, hqa] at hfq
      exact same hfp hfq

/-- Paths of one trail lead to one place. -/
theorem found_eq_of_trail_eq (hh : fs.HasProperHere) {place' : List String} {e' : Entry}
    (hp : fs.locate true p = .ok (.found place e)) (hq : fs.locate true q = .ok (.found place' e'))
    (ht : fs.trail p = fs.trail q) : place = place' ∧ e = e' :=
  (leads_of_locate hp).eq_of_trail_eq hh (leads_of_locate hq) ht

end ArchiveLabels.FileSystem
