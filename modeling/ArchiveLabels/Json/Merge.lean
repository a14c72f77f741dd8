import ArchiveLabels.Json.Basic

/-!
# Merging JSON values

`Json.merge base top` is `top` laid over `base`. Objects are merged field by field, each field of
`top` being put into those of `base` (`lookup_putField`); any other value takes the place of the one
below.
-/

namespace ArchiveLabels.Json

/-- Sets the value of a field. -/
def putField (f : String × Json) : List (String × Json) → List (String × Json)
  | [] => [f]
  | g :: gs => if g.1 = f.1 then f :: gs else g :: putField f gs

mutual

/-- A value with another one laid over it. -/
def merge (base : Json) : Json → Json
  | .obj top =>
    match base with
    | .obj fields => .obj (mergeFields fields top)
    | _ => .obj top
  | top => top
termination_by structural top => top

/-- The fields of an object with others laid over them. -/
def mergeFields (fields : List (String × Json)) : List (String × Json) → List (String × Json)
  | [] => fields
  | f :: top => mergeFields (putField (mergeField fields f) fields) top
termination_by structural top => top

/-- A field as it is when laid over the fields of an object. -/
def mergeField (fields : List (String × Json)) : String × Json → String × Json
  | (name, top) =>
    match fields.lookup name with
    | some base => (name, merge base top)
    | none => (name, top)
termination_by structural f => f

end

/-- Only the field that is set changes. -/
theorem lookup_putField (k : String) (v : Json) (fs : List (String × Json)) (name : String) :
    (putField (k, v) fs).lookup name = if name = k then some v else fs.lookup name := by
  have ne {a b : String} (h : ¬a = b) : (a == b) = false := by simpa using h
  induction fs with
  | nil => by_cases h : name = k <;> simp [putField, List.lookup_cons, h, ne]
  | cons g gs ih =>
    obtain ⟨l, w⟩ := g
    by_cases hl : l = k
    · by_cases h : name = k <;> simp [putField, List.lookup_cons, hl, h, ne]
    · by_cases h : name = l <;> simp [putField, List.lookup_cons, hl, h, ne, ih]

end ArchiveLabels.Json
