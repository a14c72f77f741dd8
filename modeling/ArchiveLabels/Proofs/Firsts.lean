import Mathlib.Data.List.Basic

/-!
# The first of each key

Of all elements that have the same key, `firsts` keeps the first : no key is kept twice
(`pairwise_firsts`) and none is lost (`exists_mem_firsts`). A list without its repetitions is the
case where each element is its own key (`nodup_eraseDups`); it stands in the order in which its
elements first occur (`InOrderOf`).
-/

namespace ArchiveLabels

variable {α β : Type} [DecidableEq β] {f : α → β}

/-- Of all that have the same key, keeps the first. -/
def firsts (f : α → β) (as : List α) : List α :=
  as.eraseDupsBy fun a b => f a == f b

/-- The first of a list is kept, and then the firsts of what differs from it. -/
theorem firsts_cons (a : α) (as : List α) :
    firsts f (a :: as) = a :: firsts f (as.filter fun b => f b ≠ f a) := by
  rw [firsts, List.eraseDupsBy_cons, firsts]
  simp

/-- Behind the first, only what has another key matters. -/
theorem firsts_induction {motive : List α → Prop} (nil : motive [])
    (cons : ∀ a as, motive (as.filter fun b => f b ≠ f a) → motive (a :: as)) :
    ∀ as, motive as
  | [] => nil
  | a :: as => cons a as (firsts_induction nil cons _)
termination_by as => as.length
decreasing_by exact Nat.lt_succ_of_le (List.length_filter_le ..)

theorem firsts_map {γ : Type} (g : γ → α) (cs : List γ) :
    firsts f (cs.map g) = (firsts (fun c => f (g c)) cs).map g := by
  induction cs using firsts_induction (f := fun c => f (g c)) with
  | nil => rfl
  | cons c cs ih => rw [List.map_cons, firsts_cons, firsts_cons, List.map_cons, ← ih,
      List.filter_map, Function.comp_def]

theorem firsts_sublist (as : List α) : (firsts f as).Sublist as := by
  induction as using firsts_induction (f := f) with
  | nil => exact .slnil
  | cons a as ih =>
    rw [firsts_cons]
    exact (ih.trans List.filter_sublist).cons_cons a

/-- No key is kept twice. -/
theorem pairwise_firsts (as : List α) : (firsts f as).Pairwise fun a b => f a ≠ f b := by
  induction as using firsts_induction (f := f) with
  | nil => exact .nil
  | cons a as ih =>
    rw [firsts_cons]
    refine .cons (fun b hb => ?_) ih
    have h := (List.mem_filter.mp ((firsts_sublist _).mem hb)).2
    exact Ne.symm (of_decide_eq_true h)

/-- No key is lost. -/
theorem exists_mem_firsts {as : List α} {a : α} (h : a ∈ as) : ∃ b ∈ firsts f as, f b = f a := by
  induction as using firsts_induction (f := f) with
  | nil => cases h
  | cons b as ih =>
    rw [firsts_cons]
    by_cases hb : f a = f b
    · exact ⟨b, List.mem_cons_self, hb.symm⟩
    · have ha : a ∈ as := (List.mem_cons.mp h).resolve_left fun hab => hb (hab ▸ rfl)
      obtain ⟨b', hb', heq⟩ := ih (List.mem_filter.mpr ⟨ha, decide_eq_true hb⟩)
      exact ⟨b', List.mem_cons_of_mem b hb', heq⟩

/-- What is kept of a list in order is what nothing of the same key comes before. -/
theorem mem_firsts_iff {before : α → α → Prop} (hasymm : ∀ a b, before a b → ¬before b a)
    {as : List α} (h : as.Pairwise before) {a : α} :
    a ∈ firsts f as ↔ a ∈ as ∧ ∀ b ∈ as, f b = f a → ¬before b a := by
  induction as using firsts_induction (f := f) with
  | nil => simp [firsts]
  | cons b as ih =>
    obtain ⟨hb, has⟩ := List.pairwise_cons.mp h
    rw [firsts_cons, List.mem_cons, ih (has.filter _)]
    simp only [List.mem_filter, decide_eq_true_eq, List.mem_cons, forall_eq_or_imp]
    constructor
    · rintro (rfl | ⟨⟨ha, hne⟩, hall⟩)
      · exact ⟨.inl rfl, fun _ h => hasymm _ _ h h, fun b' hb' _ => hasymm _ _ (hb b' hb')⟩
      · refine ⟨.inr ha, fun he => absurd he.symm hne, fun b' hb' he => hall b' ⟨hb', ?_⟩ he⟩
        rwa [he]
    · rintro ⟨rfl | ha, hfirst, hall⟩
      · exact .inl rfl
      · exact .inr ⟨⟨ha, fun he => hfirst he.symm (hb a ha)⟩, fun b' hb' => hall b' hb'.1⟩

/-! ## Without repetitions -/

theorem nodup_eraseDups (bs : List β) : bs.eraseDups.Nodup :=
  pairwise_firsts (f := id) bs

/-- The elements of `bs` stand in the order in which they first occur in `as`. -/
def InOrderOf (as bs : List β) : Prop :=
  bs.Pairwise fun a b => as.idxOf a < as.idxOf b

/-- What is left out does not change the order of the others. -/
theorem idxOf_lt_of_filter {P : β → Bool} {as : List β} {a b : β} (ha : P a = true)
    (hb : P b = true) (h : (as.filter P).idxOf a < (as.filter P).idxOf b) :
    as.idxOf a < as.idxOf b := by
  induction as with
  | nil => simp at h
  | cons c as ih =>
    by_cases hc : P c = true
    · rw [List.filter_cons_of_pos hc, List.idxOf_cons, List.idxOf_cons] at h
      rw [List.idxOf_cons, List.idxOf_cons]
      grind
    · have hne {d : β} (hd : P d = true) : c ≠ d := fun he => hc (he ▸ hd)
      rw [List.filter_cons_of_neg hc] at h
      rw [List.idxOf_cons_ne _ (hne ha), List.idxOf_cons_ne _ (hne hb)]
      exact Nat.succ_lt_succ (ih h)

theorem inOrderOf_eraseDups (as : List β) : InOrderOf as as.eraseDups := by
  induction as using firsts_induction (f := (id : β → β)) with
  | nil => exact .nil
  | cons a as ih =>
    have hcons : (a :: as).eraseDups = a :: (as.filter fun b => id b ≠ id a).eraseDups :=
      firsts_cons (f := id) a as
    have hne {b : β} (hb : b ∈ (as.filter fun b => id b ≠ id a).eraseDups) : a ≠ b := fun he =>
      of_decide_eq_true (List.mem_filter.mp (List.mem_eraseDups.mp hb)).2 he.symm
    rw [InOrderOf, hcons]
    refine .cons (fun b hb => ?_) (List.Pairwise.imp_of_mem (fun {b c} hb hc hlt => ?_) ih)
    · rw [List.idxOf_cons_self, List.idxOf_cons_ne _ (hne hb)]
      exact Nat.succ_pos _
    · rw [List.idxOf_cons_ne _ (hne hb), List.idxOf_cons_ne _ (hne hc)]
      exact Nat.succ_lt_succ (idxOf_lt_of_filter (decide_eq_true (hne hb).symm)
        (decide_eq_true (hne hc).symm) hlt)

theorem inOrderOf_eraseDups_filter (P : β → Bool) (as : List β) :
    InOrderOf as (as.filter P).eraseDups := by
  refine (inOrderOf_eraseDups (as.filter P)).imp_of_mem fun {a b} ha hb hlt => ?_
  have hP {c : β} (hc : c ∈ (as.filter P).eraseDups) : P c = true :=
    (List.mem_filter.mp (List.mem_eraseDups.mp hc)).2
  exact idxOf_lt_of_filter (hP ha) (hP hb) hlt

end ArchiveLabels
