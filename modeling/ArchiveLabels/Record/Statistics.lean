/-!
# Counts of files
-/

namespace ArchiveLabels

/-- How many files a crawl found good, found bad and left out. -/
structure Statistics where
  good : Nat
  bad : Nat
  skipped : Nat
deriving DecidableEq, Repr

namespace Statistics

/-- No files. -/
def zero : Statistics := ⟨0, 0, 0⟩

instance : Inhabited Statistics := ⟨zero⟩

instance : Add Statistics where
  add a b := ⟨a.good + b.good, a.bad + b.bad, a.skipped + b.skipped⟩

/-- The number of all files. -/
def total (s : Statistics) : Nat :=
  s.good + s.bad + s.skipped

/-- One good file more. -/
def addGood (s : Statistics) : Statistics := { s with good := s.good + 1 }

/-- One bad file more. -/
def addBad (s : Statistics) : Statistics := { s with bad := s.bad + 1 }

/-- One file left out more. -/
def addSkipped (s : Statistics) : Statistics := { s with skipped := s.skipped + 1 }

/-- The sum of a list of counts. -/
def sum (ss : List Statistics) : Statistics :=
  ss.foldl (· + ·) zero

/-! ## Sums -/

@[ext] theorem ext {a b : Statistics} (hg : a.good = b.good) (hb : a.bad = b.bad)
    (hs : a.skipped = b.skipped) : a = b := by
  cases a
  cases b
  simp_all

@[simp] theorem add_good (a b : Statistics) : (a + b).good = a.good + b.good := rfl

@[simp] theorem add_bad (a b : Statistics) : (a + b).bad = a.bad + b.bad := rfl

@[simp] theorem add_skipped (a b : Statistics) : (a + b).skipped = a.skipped + b.skipped := rfl

theorem add_zero (a : Statistics) : a + zero = a := by
  ext <;> simp [zero]

theorem zero_add (a : Statistics) : zero + a = a := by
  ext <;> simp [zero]

theorem add_assoc (a b c : Statistics) : a + b + c = a + (b + c) := by
  ext <;> simp [Nat.add_assoc]

theorem add_comm (a b : Statistics) : a + b = b + a := by
  ext <;> simp [Nat.add_comm]

theorem foldl_add (a : Statistics) (ss : List Statistics) :
    ss.foldl (· + ·) a = a + sum ss := by
  induction ss generalizing a with
  | nil => exact (add_zero a).symm
  | cons b ss ih =>
    have hb : sum (b :: ss) = b + sum ss := by
      rw [sum, List.foldl_cons, ih, zero_add]
    rw [List.foldl_cons, ih, hb, add_assoc]

@[simp] theorem sum_nil : sum [] = zero := rfl

@[simp] theorem sum_cons (a : Statistics) (ss : List Statistics) : sum (a :: ss) = a + sum ss := by
  rw [sum, List.foldl_cons, foldl_add, zero_add]

theorem sum_append (ss ts : List Statistics) : sum (ss ++ ts) = sum ss + sum ts := by
  induction ss with
  | nil => exact (zero_add _).symm
  | cons a ss ih => rw [List.cons_append, sum_cons, sum_cons, ih, add_assoc]

end Statistics

end ArchiveLabels
