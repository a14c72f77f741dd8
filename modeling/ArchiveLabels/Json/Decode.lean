import ArchiveLabels.Json.Basic
import ArchiveLabels.Table

/-!
# Typed values from JSON values

Small readers that give `none` when a value is of another type than wanted. A structure is an object
of named fields, or a list of the fields in order.
-/

namespace ArchiveLabels.Json

/-- A string. -/
def string? : Json → Option String
  | .str s => some s
  | _ => none

/-- A word of a fixed choice : a string, or an object whose one field has the word as its name and
no value. -/
def word? : Json → Option String
  | .str s => some s
  | .obj [(s, .null)] => some s
  | _ => none

/-- A truth value. -/
def bool? : Json → Option Bool
  | .bool b => some b
  | _ => none

/-- A natural number below `limit`. -/
def natBelow? (limit : Nat) : Json → Option Nat
  | .int n => if 0 ≤ n && n < limit then some n.toNat else none
  | _ => none

/-- A list of values that `f` reads. -/
def list? {α : Type} (f : Json → Option α) : Json → Option (List α)
  | .arr js => js.mapM f
  | _ => none

/-- A value that `f` reads, or `null`. -/
def nullable? {α : Type} (f : Json → Option α) : Json → Option (Option α)
  | .null => some none
  | j => (f j).map some

/-- A table of strings. -/
def table? : Json → Option (Table String String)
  | .obj fields =>
    (fields.mapM fun f => (string? f.2).map fun s => (f.1, s)).map (Table.ofList Table.textLess)
  | _ => none

/-- The fields of a structure : of an object that has none of the `names` twice, or of a list of at
least `least` items that names them by their order. Items behind those are ignored. -/
def fields? (names : List String) (least : Nat) : Json → Option (List (String × Json))
  | .obj fields =>
    if names.all fun n => (fields.filter fun f => f.1 == n).length ≤ 1 then some fields else none
  | .arr items => if least ≤ items.length then some (names.zip items) else none
  | _ => none

/-- The fields of a structure, where a list has no items behind those that are named. -/
def exactFields? (names : List String) (least : Nat) (j : Json) : Option (List (String × Json)) :=
  match j with
  | .arr items => if items.length ≤ names.length then j.fields? names least else none
  | j => j.fields? names least

/-- A field that has to be there. -/
def required? {α : Type} (fields : List (String × Json)) (name : String) (f : Json → Option α) :
    Option α :=
  (fields.lookup name).bind f

/-- A field that has a value of its own when it is not there. -/
def optional? {α : Type} (fields : List (String × Json)) (name : String) (default : α)
    (f : Json → Option α) : Option α :=
  match fields.lookup name with
  | some j => f j
  | none => some default

end ArchiveLabels.Json
