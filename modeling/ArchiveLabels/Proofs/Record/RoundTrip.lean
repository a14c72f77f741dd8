import ArchiveLabels.Proofs.Json.Decode
import ArchiveLabels.Proofs.Json.RoundTrip
import ArchiveLabels.Record.Codec

/-!
# Records are read as written

What a record leaves out of its JSON value is what its reader puts in when it is missing, at each
level : a record is read back from its JSON value (`Record.ofJson?_toJson`) if the numbers of its
lines are such as can be read (`Record.LinesFit`).
-/

namespace ArchiveLabels

open Json (optional? required? exactFields?_obj list?_arr list?_strings)

/-! ## Identifiers -/

namespace Identifier

/-- Every identifier reads back from its rendering. -/
theorem ofJson?_toJson (i : Identifier) : ofJson? i.toJson = some i := by
  obtain ⟨lid, version⟩ := i
  have hfields := exactFields?_obj
    (("lid", .str lid) :: version.toList.map fun v => ("version", .str v))
    (by cases version <;> simp) ["lid", "version"] 1
  rw [ofJson?, toJson, hfields]
  cases version <;> simp [required?, optional?, Json.string?, Json.nullable?, List.lookup_cons]

theorem nullable?_toJson (i : Option Identifier) :
    Json.nullable? ofJson? ((i.map toJson).getD .null) = some i := by
  cases i with
  | none => rfl
  | some i => exact congrArg (Option.map some) i.ofJson?_toJson

theorem isPlain_toJson (i : Identifier) : i.toJson.IsPlain := by
  simp [toJson]

end Identifier

/-! ## References -/

namespace Reference

/-- The number of the line can be read. -/
def LineFits (r : Reference) : Prop := ∀ n ∈ r.line, n < lineBound

theorem ofJson?_toJson {r : Reference} (h : r.LineFits) : ofJson? r.toJson = some r := by
  obtain ⟨target, relationship, source, line⟩ := r
  have hfields := exactFields?_obj
    ([("target", target.toJson), ("relationship", .str relationship),
      ("source", .str source)] ++ line.toList.map fun n => ("line", Json.nat n))
    (by cases line <;> simp) ["target", "relationship", "source", "line"] 3
  rw [ofJson?, toJson, hfields]
  cases line with
  | none =>
    simp [required?, optional?, Json.string?, List.lookup_cons, Identifier.ofJson?_toJson]
  | some n =>
    have hn := Json.natBelow?_nat (h n rfl)
    simp only [Json.nat] at hn
    simp [required?, optional?, Json.string?, List.lookup_cons, Identifier.ofJson?_toJson,
      Json.nullable?, Json.nat, hn]

theorem isPlain_toJson (r : Reference) : r.toJson.IsPlain := by
  simp [toJson, Identifier.isPlain_toJson]

end Reference

/-! ## Slots -/

namespace Slot

/-- The numbers of the lines can be read. -/
def LinesFit (s : Slot) : Prop := ∀ n ∈ s.lines, n < lineBound

theorem ofJson?_toJson {s : Slot} (h : s.LinesFit) : ofJson? s.toJson = some s := by
  obtain ⟨name, values, unit, lines⟩ := s
  have hfields := exactFields?_obj
    ([("name", .str name), ("values", .strings values)] ++
      (unit.toList.map fun u => ("unit", .str u)) ++
      if lines.isEmpty then [] else [("lines", .arr (lines.map Json.nat))])
    (by cases unit <;> cases lines <;> simp) ["name", "values", "unit", "lines"] 2
  have hlines : Json.list? (Json.natBelow? lineBound) (.arr (lines.map Json.nat)) = some lines :=
    list?_arr fun n hn => Json.natBelow?_nat (h n hn)
  rw [ofJson?, toJson, hfields]
  cases unit <;> cases lines <;>
    simp_all [required?, optional?, Json.string?, List.lookup_cons, list?_strings, Json.nullable?]

theorem isPlain_toJson (s : Slot) : s.toJson.IsPlain := by
  obtain ⟨name, values, unit, lines⟩ := s
  cases unit <;> cases lines <;> simp [toJson]

end Slot

/-! ## Records -/

namespace Record

/-- The numbers of the lines can be read. -/
structure LinesFit (r : Record) : Prop where
  references : ∀ x ∈ r.references, x.LineFits
  slots : ∀ s ∈ r.slots, s.LinesFit

/-- A record is read back from its JSON value. -/
theorem ofJson?_toJson {r : Record} (h : r.LinesFit) : ofJson? r.toJson = some r := by
  obtain ⟨source, identifier, title, objectType, dataClasses, references, slots⟩ := r
  have hreferences : Json.list? Reference.ofJson? (.arr (references.map Reference.toJson)) =
      some references :=
    list?_arr fun x hx => Reference.ofJson?_toJson (h.references x hx)
  have hslots : Json.list? Slot.ofJson? (.arr (slots.map Slot.toJson)) = some slots :=
    list?_arr fun s hs => Slot.ofJson?_toJson (h.slots s hs)
  rw [ofJson?, toJson, exactFields?_obj _ (by simp)]
  simp [required?, optional?, Json.string?, List.lookup_cons, Identifier.nullable?_toJson,
    Json.nullable?_ofString?, list?_strings, hreferences, hslots]

theorem isPlain_toJson (r : Record) : r.toJson.IsPlain := by
  obtain ⟨source, identifier, title, objectType, dataClasses, references, slots⟩ := r
  cases identifier <;> cases title <;>
    simp [toJson, Json.ofString?, Identifier.isPlain_toJson, Reference.isPlain_toJson,
      Slot.isPlain_toJson]

/-- A record is read back from its line. -/
theorem parse?_compact {r : Record} (h : r.LinesFit) :
    (Json.parse? r.toJson.compact).bind ofJson? = some r := by
  rw [Json.parse?_compact r.isPlain_toJson, Option.bind_some, ofJson?_toJson h]

end Record

end ArchiveLabels
