import ArchiveLabels.Config.Basic
import ArchiveLabels.Record.Basic

/-!
# Referential integrity

Records of one kind of data are referred to by a keyword : records that declare the kind give the
values of the keyword that exist, and all others may only use those. `Integrity.check` finds the
values that are used and do not exist.
-/

namespace ArchiveLabels

open Text

/-- The record declares a kind of data. -/
def Record.declares (r : Record) (kind : String) : Bool :=
  r.dataClasses.any fun c => sameLetters c kind

/-- A value that is used and does not exist. -/
structure Unmatched where
  /-- The value. -/
  value : String
  /-- The first record that uses it. -/
  record : Record
  /-- The line where it does, if known. -/
  line : Option Nat
deriving DecidableEq, Repr

namespace Category

/-- The kind of data whose collections count as data sets, too. -/
def dataSet : String := "DATA_SET"

/-- Collections of data sets. -/
def dataSetCollection : String := "DATA_SET_COLLECTION"

/-- The record gives values that exist. -/
def isParent (c : Category) (r : Record) : Bool :=
  r.declares c.name || (sameLetters c.name dataSet && r.declares dataSetCollection)

/-- The record uses values. -/
def isChild (c : Category) (r : Record) : Bool :=
  !r.declares c.name

/-- The values that exist. -/
def knownValues (c : Category) (rs : List Record) : List String :=
  ((rs.filter c.isParent).flatMap fun r => r.slotValues c.identifier).eraseDups

/-- Each use of a value, in the order of the records. -/
def uses (c : Category) (rs : List Record) : List Unmatched :=
  (rs.filter c.isChild).flatMap fun r =>
    (r.slotEntries c.identifier).map fun (value, line) => ⟨value, r, line⟩

/-- The first use of each value that does not exist. -/
def unmatched (c : Category) (rs : List Record) : List Unmatched :=
  let known := c.knownValues rs
  ((c.uses rs).filter fun u => !known.contains u.value).eraseDupsBy fun u v => u.value == v.value

/-- The problem with a value that does not exist. -/
def problem (c : Category) (u : Unmatched) : Problem :=
  (Problem.ofKind .unmatchedReference
    (c.identifier ++ " '" ++ u.value ++ "' does not match any " ++ c.name ++ " object.")
    u.record.source).atLine u.line

/-- The problems with the values of a category. -/
def problems (c : Category) (rs : List Record) : List Problem :=
  (c.unmatched rs).map c.problem

end Category

/-- What a check of records found. -/
structure Integrity where
  /-- How many categories there are. -/
  categoriesChecked : Nat
  /-- How many uses of values there are. -/
  valuesChecked : Nat
  /-- What is wrong with them. -/
  problems : List Problem
deriving DecidableEq, Repr

namespace Integrity

/-- Checks records against each category in turn. -/
def check (cs : List Category) (rs : List Record) : Integrity where
  categoriesChecked := cs.length
  valuesChecked := cs.foldl (fun n c => n + (c.uses rs).length) 0
  problems := cs.flatMap fun c => c.problems rs

end Integrity

end ArchiveLabels
