/-!
# JSON values

The one dynamic value type of the library : what JSON texts, settings files and environment
variables denote before they are given a meaning.
-/

namespace ArchiveLabels

/-- A JSON value. The fields of an object keep their order. -/
inductive Json where
  /-- The value `null`. -/
  | null
  /-- A truth value. -/
  | bool (b : Bool)
  /-- A whole number. -/
  | int (n : Int)
  /-- Any other number, as it is written. -/
  | real (text : String)
  /-- A string. -/
  | str (s : String)
  /-- What denotes no text and no fields, as it is written : a string that holds half of a pair of
  surrogates, or an object with such a name. -/
  | broken (text : String)
  /-- A list. -/
  | arr (items : List Json)
  /-- An object. -/
  | obj (fields : List (String × Json))
deriving Repr, Inhabited

namespace Json

/-- A natural number. -/
def nat (n : Nat) : Json := .int n

/-- A list of strings. -/
def strings (ss : List String) : Json := .arr (ss.map .str)

/-- A string, or `null`. -/
def ofString? : Option String → Json
  | some s => .str s
  | none => .null

/-- A natural number, or `null`. -/
def ofNat? : Option Nat → Json
  | some n => nat n
  | none => .null

/-- The field of an object that has the given name; of several, the last. -/
def field? (j : Json) (name : String) : Option Json :=
  match j with
  | .obj fields => fields.reverse.lookup name
  | _ => none

end Json

end ArchiveLabels
