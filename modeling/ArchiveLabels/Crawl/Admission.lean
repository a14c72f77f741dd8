import ArchiveLabels.Crawl.Checkpoint
import ArchiveLabels.Crawl.Exclusions
import ArchiveLabels.Extraction.Extract
import ArchiveLabels.Record.Statistics

/-!
# Which files are taken

Each candidate of a crawl is screened before anything is made of it. `Screening.screen` asks, in
this order : has it changed since it was last seen, is it left out, can its label be read, is its
product left out, and is the product of a kind that is taken.
-/

namespace ArchiveLabels

open Label

/-- Why a file whose label can be read is skipped. -/
inductive SkipReason where
  /-- The product is left out. -/
  | notPrimaryMember (i : Identifier)
  /-- The label does not say of which kind the product is. -/
  | noObjectType
  /-- The product is of a kind that is not taken. -/
  | unknownObjectType (objectType : String)
deriving DecidableEq, Repr

namespace SkipReason

/-- The wording of a reason. -/
def message : SkipReason → String
  | notPrimaryMember _ => "Not a primary member."
  | noObjectType => "No product_class element found."
  | unknownObjectType t => "'" ++ t ++ "' is not an object type found in the policy file."

end SkipReason

/-- What becomes of a candidate. -/
inductive Admission where
  /-- It has not changed since it was last seen. -/
  | unchanged
  /-- Another file speaks for it. -/
  | claimed
  /-- Its label cannot be read. -/
  | bad (e : LabelError)
  /-- It is not taken. -/
  | skipped (r : SkipReason)
  /-- It is taken, and this is its label. -/
  | good (t : Tree)

namespace Admission

/-- The name of what becomes of a candidate. -/
def name : Admission → String
  | unchanged => "unchanged"
  | claimed => "claimed"
  | bad _ => "bad"
  | skipped _ => "skipped"
  | good _ => "good"

/-- The candidate is passed over in silence. -/
def isSuppressed : Admission → Bool
  | unchanged => true
  | claimed => true
  | _ => false

/-- Adds to the counts of files. -/
def count (a : Admission) (s : Statistics) : Statistics :=
  match a with
  | unchanged => s
  | claimed => s
  | bad _ => s.addBad
  | skipped _ => s.addSkipped
  | good _ => s.addGood

end Admission

/-- How candidates are screened. -/
structure Screening where
  /-- Which kinds of product are taken. -/
  policy : Policy
  /-- What is left out. -/
  exclusions : Exclusions
  /-- Files that have not changed are passed over. -/
  incremental : Bool

namespace Screening

/-- What becomes of a file whose label is read. -/
def judgeTree (s : Screening) (t : Tree) : Admission :=
  match (t.identifier? s.policy).filter (s.exclusions.excludes s.policy) with
  | some i => .skipped (.notPrimaryMember i)
  | none =>
    let objectType := t.objectType s.policy
    if objectType = "" then .skipped .noObjectType
    else if !s.policy.recognizes objectType then .skipped (.unknownObjectType objectType)
    else .good t

/-- What becomes of a file that has changed. -/
def judge (s : Screening) (fs : FileSystem) (p : Path) : Admission :=
  if s.exclusions.isClaimed fs.workingDirectory p then .claimed
  else
    match fs.readLabel p with
    | .error e => .bad e
    | .ok t => s.judgeTree t

/-- What becomes of a candidate, and what is known of the times of files then. -/
def screen (s : Screening) (fs : FileSystem) (p : Path) (c : Checkpoint) : Admission × Checkpoint :=
  if s.incremental then
    match fs.modified p with
    | .error e => (.bad (.unreadable e), c)
    | .ok t =>
      match c.observe fs.workingDirectory p t with
      | (c, true) => (.unchanged, c)
      | (c, false) => (s.judge fs p, c)
  else (s.judge fs p, c)

end Screening

end ArchiveLabels
