import ArchiveLabels.Crawl.Exclusions
import Mathlib.Data.List.Nodup

/-!
# What exclusions answer

Exclusions grow by steps, each of which leaves out a product or a file, and by what other exclusions
leave out. Leaving out also what those do is nothing but to take the steps that led to them
(`Exclusions.merge_applyAll`), so that however operations are nested, the steps in them count
(`Exclusions.performAll_eq`). `Exclusions.Answers` says what is answered behind the steps; one step
keeps it (`Exclusions.Answers.apply`). The answers depend on which steps there are, not on their
order (`Exclusions.answers_of_operations`).
-/

namespace ArchiveLabels

namespace Identifier

/-- An entry without version covers every version. -/
theorem covers_iff {entry i : Identifier} : entry.covers i = true ↔
    entry.lid = i.lid ∧ (entry.version = none ∨ entry.version = i.version) := by
  simp [covers]

/-- What is covered by a covered entry is covered. -/
theorem covers_trans {a b c : Identifier} (hab : a.covers b = true) (hbc : b.covers c = true) :
    a.covers c = true := by
  rw [covers_iff] at *
  obtain ⟨hlid, hversion⟩ := hab
  obtain ⟨hlid', hversion'⟩ := hbc
  refine ⟨hlid.trans hlid', ?_⟩
  rcases hversion with hnone | heq
  · exact .inl hnone
  · rw [heq]
    exact hversion'

end Identifier

namespace Exclusions

/-- Something to leave out. -/
inductive Step where
  /-- A product. -/
  | add (i : Identifier)
  /-- A file. -/
  | claim (p : Path)
deriving DecidableEq, Repr

/-- What is done to exclusions. -/
inductive Operation where
  /-- Something is left out. -/
  | step (s : Step)
  /-- So is what other exclusions leave out, which come of operations themselves. -/
  | merge (ops : List Operation)

variable {cwd : Path} {e f : Exclusions} {i : Identifier} {s : Step} {steps more : List Step}

/-- Takes a step. -/
def apply (cwd : Path) (e : Exclusions) : Step → Exclusions
  | .add i => e.add i
  | .claim p => e.claim cwd p

/-- Takes steps one after the other. -/
def applyAll (cwd : Path) (e : Exclusions) (steps : List Step) : Exclusions :=
  steps.foldl (apply cwd) e

mutual

/-- Does an operation. -/
def Operation.perform (cwd : Path) : Operation → Exclusions → Exclusions
  | .step s, e => e.apply cwd s
  | .merge ops, e => e.merge (performAll cwd ops empty)

/-- Does operations one after the other. -/
def performAll (cwd : Path) : List Operation → Exclusions → Exclusions
  | [], e => e
  | o :: ops, e => performAll cwd ops (o.perform cwd e)

end

/-- What is left out after the operations. -/
def after (cwd : Path) (ops : List Operation) : Exclusions :=
  performAll cwd ops empty

mutual

/-- The steps in an operation, at any depth. -/
def Operation.steps : Operation → List Step
  | .step s => [s]
  | .merge ops => stepsOf ops

/-- The steps in operations. -/
def stepsOf : List Operation → List Step
  | [] => []
  | o :: ops => o.steps ++ stepsOf ops

end

/-! ## Merging is taking the steps -/

theorem add_of_mem (h : i ∈ e.nonPrimary) : e.add i = e :=
  if_pos h

theorem add_of_notMem (h : i ∉ e.nonPrimary) :
    e.add i = ⟨e.nonPrimary ++ [i], e.claimed⟩ :=
  if_neg h

theorem claimed_add (e : Exclusions) (i : Identifier) : (e.add i).claimed = e.claimed := by
  unfold add
  split <;> rfl

/-- Which files are left out does not matter to the list of products. -/
theorem add_withClaimed (e : Exclusions) (ps : List Path) (i : Identifier) :
    ({ e with claimed := ps } : Exclusions).add i = { e.add i with claimed := ps } := by
  unfold add
  split <;> rfl

/-- An identifier is added once. -/
theorem mem_add_iff {j : Identifier} : j ∈ (e.add i).nonPrimary ↔ j ∈ e.nonPrimary ∨ j = i := by
  by_cases h : i ∈ e.nonPrimary
  · rw [add_of_mem h, iff_self_or]
    rintro rfl
    exact h
  · rw [add_of_notMem h, List.mem_append, List.mem_singleton]

theorem mem_foldl_add_iff {is : List Identifier} :
    i ∈ (is.foldl add e).nonPrimary ↔ i ∈ e.nonPrimary ∨ i ∈ is := by
  induction is generalizing e with
  | nil => simp
  | cons j is ih => rw [List.foldl_cons, ih, mem_add_iff, List.mem_cons, or_assoc]

theorem merge_empty (e : Exclusions) : e.merge empty = e := by
  simp [merge, empty]

/-- Merging may be done before an addition or behind it. -/
theorem merge_add (e f : Exclusions) (i : Identifier) :
    e.merge (f.add i) = (e.merge f).add i := by
  by_cases h : i ∈ f.nonPrimary
  · have hmem : i ∈ (e.merge f).nonPrimary := mem_foldl_add_iff.mpr (.inr h)
    rw [add_of_mem h, add_of_mem hmem]
  · rw [add_of_notMem h]
    simp only [merge, List.foldl_append, List.foldl_cons, List.foldl_nil, claimed_add,
      add_withClaimed]

theorem merge_claim (e f : Exclusions) (cwd p : Path) :
    e.merge (f.claim cwd p) = (e.merge f).claim cwd p := by
  simp [merge, claim, List.append_assoc]

/-- Merging may be done before any step or behind it. -/
theorem merge_apply (e f : Exclusions) (cwd : Path) (s : Step) :
    e.merge (f.apply cwd s) = (e.merge f).apply cwd s := by
  cases s with
  | add i => exact merge_add e f i
  | claim p => exact merge_claim e f cwd p

/-- To leave out what others leave out is to take the steps that led to them. -/
theorem merge_applyAll (e f : Exclusions) (cwd : Path) (steps : List Step) :
    e.merge (f.applyAll cwd steps) = (e.merge f).applyAll cwd steps := by
  induction steps generalizing f with
  | nil => rfl
  | cons s steps ih =>
    calc e.merge (applyAll cwd (f.apply cwd s) steps)
        = (e.merge (f.apply cwd s)).applyAll cwd steps := ih _
      _ = ((e.merge f).apply cwd s).applyAll cwd steps := by rw [merge_apply]

theorem applyAll_append (cwd : Path) (e : Exclusions) (steps more : List Step) :
    e.applyAll cwd (steps ++ more) = (e.applyAll cwd steps).applyAll cwd more :=
  List.foldl_append

mutual

/-- An operation, merges and all, is the steps it comes down to. -/
theorem Operation.perform_eq (cwd : Path) (e : Exclusions) :
    ∀ o : Operation, o.perform cwd e = e.applyAll cwd o.steps
  | .step s => rfl
  | .merge ops => by
    rw [Operation.perform, Operation.steps, performAll_eq cwd empty ops, merge_applyAll, merge_empty]

/-- Of operations the steps in them count. -/
theorem performAll_eq (cwd : Path) (e : Exclusions) :
    ∀ ops : List Operation, performAll cwd ops e = e.applyAll cwd (stepsOf ops)
  | [] => rfl
  | o :: ops => by
    rw [performAll, stepsOf, applyAll_append, Operation.perform_eq cwd e o, performAll_eq cwd _ ops]

end

/-! ## What the steps come to -/

/-- What exclusions answer behind the steps. -/
structure Answers (cwd : Path) (steps : List Step) (e : Exclusions) : Prop where
  /-- No product is listed twice. -/
  nodup : e.nonPrimary.Nodup
  /-- The products listed are those that were added. -/
  mem_nonPrimary_iff : ∀ i, i ∈ e.nonPrimary ↔ .add i ∈ steps
  /-- They stand in the order in which they were first added. -/
  inOrder : e.nonPrimary.Pairwise fun i j =>
    ∃ before after, steps = before ++ .add i :: after ∧ .add j ∉ before
  /-- A file is left out if one of the same absolute path was claimed. -/
  isClaimed_iff : ∀ p, e.isClaimed cwd p = true ↔
    ∃ q, .claim q ∈ steps ∧ Path.absolute cwd q = Path.absolute cwd p

namespace Answers

theorem empty (cwd : Path) : Answers cwd [] Exclusions.empty where
  nodup := .nil
  mem_nonPrimary_iff i := by simp [Exclusions.empty]
  inOrder := .nil
  isClaimed_iff p := by simp [Exclusions.empty, isClaimed]

/-- Further steps do not change the order of the products listed before. -/
theorem inOrder_append (h : Answers cwd steps e) (more : List Step) :
    e.nonPrimary.Pairwise fun i j =>
      ∃ before after, steps ++ more = before ++ .add i :: after ∧ .add j ∉ before := by
  refine h.inOrder.imp ?_
  rintro i j ⟨before, after, rfl, hj⟩
  exact ⟨before, after ++ more, by simp, hj⟩

/-- An addition keeps the answers right. -/
theorem add (h : Answers cwd steps e) (i : Identifier) :
    Answers cwd (steps ++ [.add i]) (e.add i) where
  nodup := by
    by_cases hi : i ∈ e.nonPrimary
    · rw [add_of_mem hi]
      exact h.nodup
    · rw [add_of_notMem hi]
      exact List.concat_eq_append ▸ List.Nodup.concat hi h.nodup
  mem_nonPrimary_iff j := by
    rw [mem_add_iff, h.mem_nonPrimary_iff]
    simp
  inOrder := by
    by_cases hi : i ∈ e.nonPrimary
    · rw [add_of_mem hi]
      exact h.inOrder_append _
    · rw [add_of_notMem hi]
      refine List.pairwise_append.mpr ⟨h.inOrder_append _, List.pairwise_singleton _ _, ?_⟩
      rintro j hj k hk
      obtain rfl := List.mem_singleton.mp hk
      obtain ⟨before, after, rfl⟩ := List.append_of_mem ((h.mem_nonPrimary_iff j).mp hj)
      exact ⟨before, after ++ [.add k], by simp,
        fun hmem => hi ((h.mem_nonPrimary_iff k).mpr (List.mem_append_left _ hmem))⟩
  isClaimed_iff p := by
    rw [isClaimed, claimed_add, ← isClaimed, h.isClaimed_iff]
    simp

/-- A claim keeps the answers right. -/
theorem claim (h : Answers cwd steps e) (p : Path) :
    Answers cwd (steps ++ [.claim p]) (e.claim cwd p) where
  nodup := h.nodup
  mem_nonPrimary_iff j := by
    have hmem : j ∈ (e.claim cwd p).nonPrimary ↔ j ∈ e.nonPrimary := Iff.rfl
    rw [hmem, h.mem_nonPrimary_iff]
    simp
  inOrder := h.inOrder_append _
  isClaimed_iff q := by
    have hclaimed : (e.claim cwd p).isClaimed cwd q = true ↔
        e.isClaimed cwd q = true ∨ Path.absolute cwd p = Path.absolute cwd q := by
      simp [isClaimed, Exclusions.claim, eq_comm (a := Path.absolute cwd p)]
    rw [hclaimed, h.isClaimed_iff]
    simp only [List.mem_append, List.mem_singleton, Step.claim.injEq, or_and_right, exists_or,
      exists_eq_left]

/-- A step keeps what is answered. -/
theorem apply (h : Answers cwd steps e) (s : Step) :
    Answers cwd (steps ++ [s]) (e.apply cwd s) := by
  cases s with
  | add i => exact h.add i
  | claim p => exact h.claim p

/-- Steps keep the answers right, by induction on them. -/
theorem applyAll (h : Answers cwd steps e) (more : List Step) :
    Answers cwd (steps ++ more) (e.applyAll cwd more) := by
  induction more generalizing steps e with
  | nil => rwa [List.append_nil]
  | cons s more ih =>
    rw [List.append_cons]
    exact ih (h.apply s)

/-! ### Which products are left out -/

/-- A product is left out when an entry added, or one of the policy, covers it. -/
theorem excludes_iff (h : Answers cwd steps e) (policy : Policy) (i : Identifier) :
    e.excludes policy i = true ↔
      ∃ entry, (.add entry ∈ steps ∨ entry ∈ policy.nonPrimaryMembers) ∧ entry.lid = i.lid ∧
        (entry.version = none ∨ entry.version = i.version) := by
  simp only [excludes, List.any_eq_true, List.mem_append, h.mem_nonPrimary_iff,
    or_comm (a := _ ∈ policy.nonPrimaryMembers), Identifier.covers_iff]

/-- What is claimed stays claimed. -/
theorem isClaimed_mono (h : Answers cwd steps e) (h' : Answers cwd more f) (hsub : steps ⊆ more)
    {p : Path} (hp : e.isClaimed cwd p = true) : f.isClaimed cwd p = true := by
  obtain ⟨q, hq, heq⟩ := (h.isClaimed_iff p).mp hp
  exact (h'.isClaimed_iff p).mpr ⟨q, hsub hq, heq⟩

/-- What is left out stays left out. -/
theorem excludes_mono (h : Answers cwd steps e) (h' : Answers cwd more f) (hsub : steps ⊆ more)
    {policy : Policy} (hi : e.excludes policy i = true) : f.excludes policy i = true := by
  obtain ⟨entry, hentry, hcovers⟩ := (h.excludes_iff policy i).mp hi
  exact (h'.excludes_iff policy i).mpr ⟨entry, hentry.imp_left (hsub ·), hcovers⟩

/-- A product that is left out already adds nothing. -/
theorem excludes_add (h : Answers cwd steps e) {policy : Policy} {entry : Identifier}
    (hentry : .add entry ∈ steps ∨ entry ∈ policy.nonPrimaryMembers)
    (hcovers : entry.covers i = true) (j : Identifier) :
    (e.add i).excludes policy j = e.excludes policy j := by
  refine Bool.eq_iff_iff.mpr ⟨fun hj => ?_, h.excludes_mono (h.add i) (List.subset_append_left _ _)⟩
  obtain ⟨entry', hentry', hcovers'⟩ := ((h.add i).excludes_iff policy j).mp hj
  rw [← Identifier.covers_iff] at hcovers'
  simp only [List.mem_append, List.mem_singleton, Step.add.injEq] at hentry'
  rw [h.excludes_iff]
  rcases hentry' with (hentry' | rfl) | hentry'
  · exact ⟨entry', .inl hentry', Identifier.covers_iff.mp hcovers'⟩
  · exact ⟨entry, hentry, Identifier.covers_iff.mp (Identifier.covers_trans hcovers hcovers')⟩
  · exact ⟨entry', .inr hentry', Identifier.covers_iff.mp hcovers'⟩

end Answers

/-! ## Operations -/

theorem answers_applyAll (cwd : Path) (steps : List Step) :
    Answers cwd steps (empty.applyAll cwd steps) :=
  (Answers.empty cwd).applyAll steps

/-- The answers after any operations follow from their steps. -/
theorem answers_after (cwd : Path) (ops : List Operation) :
    Answers cwd (stepsOf ops) (after cwd ops) := by
  rw [after, performAll_eq]
  exact answers_applyAll cwd (stepsOf ops)

theorem answers_performAll (cwd : Path) (ops more : List Operation) :
    Answers cwd (stepsOf ops ++ stepsOf more) (performAll cwd more (after cwd ops)) := by
  rw [performAll_eq]
  exact (answers_after cwd ops).applyAll (stepsOf more)

/-- **Exclusions are a set of steps.** Of whatever operations they come, however nested, they list
the products that were added, each once and in the order of the first time. A file is left out just
if one of its absolute path was claimed, and a product just if an entry that was added, or one of
the policy, has its logical identifier and either no version or its version. What is left out
depends neither on the order of the steps nor on how often they are taken, stays left out whatever
is done next, and does not change by a product that an entry covers already. -/
theorem answers_of_operations (cwd : Path) (ops : List Operation) :
    Answers cwd (stepsOf ops) (after cwd ops) ∧
    (∀ policy i, (after cwd ops).excludes policy i = true ↔
      ∃ entry, (.add entry ∈ stepsOf ops ∨ entry ∈ policy.nonPrimaryMembers) ∧
        entry.lid = i.lid ∧ (entry.version = none ∨ entry.version = i.version)) ∧
    (∀ ops', (∀ s, s ∈ stepsOf ops' ↔ s ∈ stepsOf ops) →
      (∀ p, (after cwd ops').isClaimed cwd p = (after cwd ops).isClaimed cwd p) ∧
      ∀ policy i, (after cwd ops').excludes policy i = (after cwd ops).excludes policy i) ∧
    (∀ more,
      (∀ p, (after cwd ops).isClaimed cwd p = true →
        (performAll cwd more (after cwd ops)).isClaimed cwd p = true) ∧
      ∀ policy i, (after cwd ops).excludes policy i = true →
        (performAll cwd more (after cwd ops)).excludes policy i = true) ∧
    ∀ policy entry i, (.add entry ∈ stepsOf ops ∨ entry ∈ policy.nonPrimaryMembers) →
      entry.covers i = true →
        ∀ j, ((after cwd ops).add i).excludes policy j = (after cwd ops).excludes policy j := by
  have h := answers_after cwd ops
  refine ⟨h, h.excludes_iff, fun ops' heq => ?_, fun more => ?_,
    fun policy entry i => h.excludes_add⟩
  · have h' := answers_after cwd ops'
    have hsub : stepsOf ops ⊆ stepsOf ops' := fun s hs => (heq s).mpr hs
    have hsub' : stepsOf ops' ⊆ stepsOf ops := fun s hs => (heq s).mp hs
    exact ⟨fun p => Bool.eq_iff_iff.mpr ⟨h'.isClaimed_mono h hsub', h.isClaimed_mono h' hsub⟩,
      fun policy i => Bool.eq_iff_iff.mpr ⟨h'.excludes_mono h hsub', h.excludes_mono h' hsub⟩⟩
  · have h' := answers_performAll cwd ops more
    have hsub := List.subset_append_left (stepsOf ops) (stepsOf more)
    exact ⟨fun p => h.isClaimed_mono h' hsub, fun policy i => h.excludes_mono h' hsub⟩

/-- A product and a file, in exclusions inside exclusions, and a product for the second time. -/
def nestedOperations : List Operation :=
  [.step (.add ⟨"urn:x", none⟩), .merge [.step (.claim ⟨"t.csv"⟩),
    .merge [.step (.add ⟨"urn:y", some "2"⟩), .step (.add ⟨"urn:x", none⟩)]]]

/-- The same steps in another order. -/
def flatOperations : List Operation :=
  [.step (.add ⟨"urn:y", some "2"⟩), .step (.add ⟨"urn:x", none⟩), .step (.claim ⟨"t.csv"⟩)]

/-- A policy that leaves out one product. -/
def strictPolicy : Policy where
  objectTypes := []
  requiredFields := []
  referenceTypes := none
  nonPrimaryMembers := [⟨"urn:z", some "1"⟩]
  namespaces := []
  legacy := ⟨"", "", [], "", "", [], []⟩
  slotKeywords := []

/-- Nested or not, the same steps leave out the same file; another version of a product that is left
out in every version makes no difference. -/
theorem answers_of_operations_nested :
    (after ⟨"/d"⟩ nestedOperations).nonPrimary = [⟨"urn:x", none⟩, ⟨"urn:y", some "2"⟩] ∧
    ((∀ s, s ∈ stepsOf flatOperations ↔ s ∈ stepsOf nestedOperations) ∧
      (after ⟨"/d"⟩ flatOperations).isClaimed ⟨"/d"⟩ ⟨"/d/./t.csv"⟩ =
        (after ⟨"/d"⟩ nestedOperations).isClaimed ⟨"/d"⟩ ⟨"/d/./t.csv"⟩) ∧
    ((after ⟨"/d"⟩ nestedOperations).excludes strictPolicy ⟨"urn:z", some "1"⟩ = true ∧
      (performAll ⟨"/d"⟩ flatOperations (after ⟨"/d"⟩ nestedOperations)).excludes strictPolicy
        ⟨"urn:z", some "1"⟩ = true) ∧
    (.add ⟨"urn:x", none⟩ ∈ stepsOf nestedOperations ∧
      (⟨"urn:x", none⟩ : Identifier).covers ⟨"urn:x", some "3"⟩ = true ∧
      ((after ⟨"/d"⟩ nestedOperations).add ⟨"urn:x", some "3"⟩).excludes strictPolicy
          ⟨"urn:y", none⟩ =
        (after ⟨"/d"⟩ nestedOperations).excludes strictPolicy ⟨"urn:y", none⟩) := by
  obtain ⟨-, -, hsame, hmore, hcovered⟩ := answers_of_operations ⟨"/d"⟩ nestedOperations
  have hsub : ∀ s ∈ stepsOf flatOperations, s ∈ stepsOf nestedOperations := by decide +kernel
  have hsub' : ∀ s ∈ stepsOf nestedOperations, s ∈ stepsOf flatOperations := by decide +kernel
  have hsteps s : s ∈ stepsOf flatOperations ↔ s ∈ stepsOf nestedOperations :=
    ⟨hsub s, hsub' s⟩
  have hexcluded : (after ⟨"/d"⟩ nestedOperations).excludes strictPolicy ⟨"urn:z", some "1"⟩ =
      true := by decide +kernel
  have hadded : .add ⟨"urn:x", none⟩ ∈ stepsOf nestedOperations := by decide +kernel
  exact ⟨by decide +kernel, ⟨hsteps, (hsame _ hsteps).1 _⟩,
    ⟨hexcluded, (hmore flatOperations).2 _ _ hexcluded⟩,
    hadded, by decide, hcovered strictPolicy _ _ (.inl hadded) (by decide) _⟩

end Exclusions

end ArchiveLabels
