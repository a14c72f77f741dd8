/-!
# Tables

A table is a list of keys with their values, in ascending order of the keys. `Table.put` sets the
value of a key; a key that is there already keeps its spelling.
-/

namespace ArchiveLabels

/-- Keys with their values. -/
abbrev Table (κ : Type) (ν : Type) := List (κ × ν)

namespace Table

variable {κ ν : Type}

/-- Sets the value of the key `k` in a table ordered by `less`. -/
def put (less : κ → κ → Bool) (k : κ) (v : ν) : Table κ ν → Table κ ν
  | [] => [(k, v)]
  | e :: es =>
    if less e.1 k then e :: put less k v es
    else if less k e.1 then (k, v) :: e :: es
    else (e.1, v) :: es

/-- The value of the key `k` in a table ordered by `less`. -/
def get? (less : κ → κ → Bool) (k : κ) : Table κ ν → Option ν
  | [] => none
  | e :: es =>
    if less e.1 k then get? less k es
    else if less k e.1 then none
    else some e.2

/-- The table of a list of keys and values; of several values of a key the last counts. -/
def ofList (less : κ → κ → Bool) (es : List (κ × ν)) : Table κ ν :=
  es.foldl (fun t e => t.put less e.1 e.2) []

/-- The order of texts by their characters. -/
def textLess (a b : String) : Bool := decide (a < b)

end Table

end ArchiveLabels
