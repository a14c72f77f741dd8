import ArchiveLabels.Proofs.Json.Tokens
import Mathlib.Data.List.DropRight

/-!
# JSON texts are read as written

`Json.WrittenAs` : the characters are a text of the value, with white space between its tokens as
one likes. Such a text is read as the value, whatever stands behind it
(`Json.readValue_of_writtenAs`). Both ways of writing a value give texts of it, so that a value is
read as it was written on one line (`Json.parse?_compact`) or on several (`Json.parse?_pretty`), if
it is made of strings, whole numbers, truth values, lists and objects (`Json.IsPlain`).
-/

namespace ArchiveLabels.Json

open Text

variable {c : Char} {cs ws rest : List Char} {j : Json} {fuel : Nat}

/-! ## White space -/

/-- White space only. -/
def IsSpaces (ws : List Char) : Prop := ∀ c ∈ ws, isSpace c = true

theorem skipSpaces_append (h : IsSpaces ws) (cs : List Char) :
    skipSpaces (ws ++ cs) = skipSpaces cs :=
  List.dropWhile_append_of_pos h

theorem skipSpaces_cons (h : isSpace c = false) : skipSpaces (c :: cs) = c :: cs :=
  List.dropWhile_cons_of_neg (by rw [h]; exact Bool.false_ne_true)

theorem skipSpaces_skipSpaces (cs : List Char) : skipSpaces (skipSpaces cs) = skipSpaces cs :=
  List.dropWhile_idempotent _ cs

/-- Spaces in front of a value make no difference. -/
theorem readValue_skipSpaces (fuel : Nat) (cs : List Char) :
    readValue fuel (skipSpaces cs) = readValue fuel cs := by
  cases fuel with
  | zero => rfl
  | succ fuel => rw [readValue, readValue, skipSpaces_skipSpaces]

theorem readItems_skipSpaces (fuel : Nat) (cs : List Char) :
    readItems fuel (skipSpaces cs) = readItems fuel cs := by
  cases fuel with
  | zero => rfl
  | succ fuel => rw [readItems, readItems, readValue_skipSpaces]

theorem readFields_skipSpaces (fuel : Nat) (cs : List Char) :
    readFields fuel (skipSpaces cs) = readFields fuel cs := by
  cases fuel with
  | zero => rfl
  | succ fuel => rw [readFields, readFields, skipSpaces_skipSpaces]

theorem ValueEnd.append (hws : IsSpaces ws) (h : ValueEnd rest) : ValueEnd (ws ++ rest) := by
  cases ws with
  | nil => exact h
  | cons c ws =>
    rintro _ ⟨⟩
    have hspace := hws c List.mem_cons_self
    simp only [isSpace, Bool.or_eq_true, beq_iff_eq] at hspace
    rcases hspace with ((rfl | rfl) | rfl) | rfl <;> decide

theorem valueEnd_cons (h : c = ',' ∨ c = ']' ∨ c = '\x7d') : ValueEnd (c :: rest) := by
  rintro _ ⟨⟩
  rcases h with rfl | rfl | rfl <;> decide

/-! ## Texts of values -/

mutual

/-- The characters are a text of the value, with any white space between its tokens. -/
def WrittenAs : Json → List Char → Prop
  | .null, cs => cs = "null".toList
  | .bool true, cs => cs = "true".toList
  | .bool false, cs => cs = "false".toList
  | .int n, cs => cs = (toString n).toList
  | .real _, _ => False
  | .str s, cs => cs = quoted s
  | .broken _, _ => False
  | .arr items, cs => ∃ inner, cs = '[' :: (inner ++ [']']) ∧ ItemsWrittenAs items inner
  | .obj fields, cs => ∃ inner, cs = '\x7b' :: (inner ++ ['\x7d']) ∧ FieldsWrittenAs fields inner
termination_by structural j => j

/-- The characters between the brackets of a list are a text of its items. -/
def ItemsWrittenAs : List Json → List Char → Prop
  | [], cs => IsSpaces cs
  | j :: js, cs => ∃ before text behind more, cs = before ++ (text ++ (behind ++ more)) ∧
      IsSpaces before ∧ WrittenAs j text ∧ IsSpaces behind ∧
      if js.isEmpty then more = [] else ∃ items, more = ',' :: items ∧ ItemsWrittenAs js items
termination_by structural js => js

/-- The characters between the braces of an object are a text of its fields. -/
def FieldsWrittenAs : List (String × Json) → List Char → Prop
  | [], cs => IsSpaces cs
  | f :: fs, cs => ∃ before text behind more, cs = before ++ (text ++ (behind ++ more)) ∧
      IsSpaces before ∧ FieldWrittenAs f text ∧ IsSpaces behind ∧
      if fs.isEmpty then more = [] else ∃ fields, more = ',' :: fields ∧ FieldsWrittenAs fs fields
termination_by structural fs => fs

/-- The characters are a text of the field. -/
def FieldWrittenAs : String × Json → List Char → Prop
  | (name, value), cs => ∃ before behind text,
      cs = quoted name ++ (before ++ ':' :: (behind ++ text)) ∧
      IsSpaces before ∧ IsSpaces behind ∧ WrittenAs value text
termination_by structural f => f

end

theorem isSpace_eq_false_of_startsNumber (h : c = '-' ∨ c.isDigit = true) : isSpace c = false := by
  simp [isSpace, ne_of_startsNumber h]

/-- A text starts with a character that is neither white space nor the end of a list. -/
theorem exists_cons_of_writtenAs (h : j.WrittenAs cs) :
    ∃ c ds, cs = c :: ds ∧ isSpace c = false ∧ c ≠ ']' := by
  cases j with
  | null => exact ⟨_, _, h, rfl, by decide⟩
  | bool b => cases b <;> exact ⟨_, _, h, rfl, by decide⟩
  | int n =>
    obtain ⟨c, ds, hcs, hc⟩ := exists_toString_eq_cons n
    exact ⟨c, ds, h.trans hcs, isSpace_eq_false_of_startsNumber hc, ne_of_startsNumber hc rfl⟩
  | real text => exact h.elim
  | str s => exact ⟨_, _, h, rfl, by decide⟩
  | broken text => exact h.elim
  | arr items =>
    obtain ⟨inner, rfl, -⟩ := h
    exact ⟨_, _, rfl, rfl, by decide⟩
  | obj fields =>
    obtain ⟨inner, rfl, -⟩ := h
    exact ⟨_, _, rfl, rfl, by decide⟩

/-- Items do not start with the end of a list. -/
theorem skipSpaces_items_ne {js : List Json} (h : ItemsWrittenAs (j :: js) cs) (ds : List Char) :
    skipSpaces (cs ++ rest) ≠ ']' :: ds := by
  obtain ⟨before, text, behind, more, rfl, hbefore, htext, -⟩ := h
  obtain ⟨c, es, rfl, hspace, hne⟩ := exists_cons_of_writtenAs htext
  rw [List.append_assoc, skipSpaces_append hbefore, List.cons_append, List.cons_append,
    skipSpaces_cons hspace]
  exact fun he => hne (List.cons.inj he).1

/-- Fields do not start with the end of an object. -/
theorem skipSpaces_fields_ne {f : String × Json} {fs : List (String × Json)}
    (h : FieldsWrittenAs (f :: fs) cs) (ds : List Char) :
    skipSpaces (cs ++ rest) ≠ '\x7d' :: ds := by
  obtain ⟨name, value⟩ := f
  obtain ⟨before, text, behind, more, rfl, hbefore, ⟨_, _, _, rfl, -⟩, -⟩ := h
  rw [List.append_assoc, skipSpaces_append hbefore, quoted]
  simp [skipSpaces_cons (show isSpace '"' = false from rfl)]

/-! ## One step of reading -/

theorem readValue_number (h : c = '-' ∨ c.isDigit = true) :
    readValue (fuel + 1) (c :: cs) = readNumber (c :: cs) := by
  rw [readValue, skipSpaces_cons (isSpace_eq_false_of_startsNumber h)]
  split <;> rename_i heq <;>
    first | rfl | exact absurd (List.cons.inj heq).1 (ne_of_startsNumber h rfl)

/-- A quoted string reads back. -/
theorem readValue_string (s : String) :
    readValue (fuel + 1) (quoted s ++ rest) = some (.str s, rest) := by
  simp only [quoted, List.cons_append, List.append_assoc, List.nil_append, readValue,
    skipSpaces_cons (show isSpace '"' = false from rfl), readString_escaped, Option.map_some,
    Option.elim_some, String.ofList_toList]

theorem readValue_emptyList (hws : IsSpaces ws) :
    readValue (fuel + 1) ('[' :: (ws ++ ']' :: rest)) = some (.arr [], rest) := by
  rw [readValue, skipSpaces_cons rfl]
  simp only [skipSpaces_append hws, skipSpaces_cons (show isSpace ']' = false from rfl)]

/-- A list that is not empty is read item by item. -/
theorem readValue_list {js : List Json} (hcs : ∀ ds, skipSpaces cs ≠ ']' :: ds)
    (hitems : readItems fuel cs = some (js, rest)) :
    readValue (fuel + 1) ('[' :: cs) = some (.arr js, rest) := by
  simp only [readValue, skipSpaces_cons (show isSpace '[' = false from rfl),
    readItems_skipSpaces, hitems, Option.map_some]

theorem readValue_emptyObject (hws : IsSpaces ws) :
    readValue (fuel + 1) ('\x7b' :: (ws ++ '\x7d' :: rest)) = some (.obj [], rest) := by
  rw [readValue, skipSpaces_cons rfl]
  simp only [skipSpaces_append hws, skipSpaces_cons (show isSpace '\x7d' = false from rfl)]

/-- An object that is not empty is read field by field. -/
theorem readValue_object {fs : List (String × Json)} (hcs : ∀ ds, skipSpaces cs ≠ '\x7d' :: ds)
    (hfields : readFields fuel cs = some (some fs, rest)) :
    readValue (fuel + 1) ('\x7b' :: cs) = some (.obj fs, rest) := by
  simp only [readValue, skipSpaces_cons (show isSpace '\x7b' = false from rfl),
    readFields_skipSpaces, hfields, Option.map_some, Option.elim_some]

theorem readItems_last (hread : readValue fuel cs = some (j, ws ++ ']' :: rest))
    (hws : IsSpaces ws) : readItems (fuel + 1) cs = some ([j], rest) := by
  simp only [readItems, hread, Option.bind_eq_bind, Option.bind_some, skipSpaces_append hws,
    skipSpaces_cons (show isSpace ']' = false from rfl)]
  rfl

/-- Behind a comma the next item is read. -/
theorem readItems_comma {ds : List Char} {js : List Json}
    (hread : readValue fuel cs = some (j, ws ++ ',' :: ds)) (hws : IsSpaces ws)
    (hitems : readItems fuel ds = some (js, rest)) :
    readItems (fuel + 1) cs = some (j :: js, rest) := by
  simp only [readItems, hread, Option.bind_eq_bind, Option.bind_some, skipSpaces_append hws,
    skipSpaces_cons (show isSpace ',' = false from rfl), hitems]
  rfl

/-- A field is read in front of the rest. -/
def ReadsField (fuel : Nat) (cs : List Char) (f : String × Json) (rest : List Char) : Prop :=
  ∃ ds name es gs, skipSpaces cs = '"' :: ds ∧ readString ds = some (some name, es) ∧
    f.1 = String.ofList name ∧ skipSpaces es = ':' :: gs ∧ readValue fuel gs = some (f.2, rest)

theorem readFields_last {f : String × Json} (hread : ReadsField fuel cs f (ws ++ '\x7d' :: rest))
    (hws : IsSpaces ws) : readFields (fuel + 1) cs = some (some [f], rest) := by
  obtain ⟨k, v⟩ := f
  obtain ⟨ds, name, es, gs, hstart, hname, rfl, hcolon, hvalue⟩ := hread
  simp only [readFields, hstart, hname, hcolon, hvalue, Option.bind_eq_bind, Option.bind_some,
    skipSpaces_append hws, skipSpaces_cons (show isSpace '\x7d' = false from rfl)]
  rfl

/-- Behind a comma the next field is read. -/
theorem readFields_comma {ds : List Char} {f : String × Json} {fs : List (String × Json)}
    (hread : ReadsField fuel cs f (ws ++ ',' :: ds)) (hws : IsSpaces ws)
    (hfields : readFields fuel ds = some (some fs, rest)) :
    readFields (fuel + 1) cs = some (some (f :: fs), rest) := by
  obtain ⟨k, v⟩ := f
  obtain ⟨_, name, es, gs, hstart, hname, rfl, hcolon, hvalue⟩ := hread
  simp only [readFields, hstart, hname, hcolon, hvalue, Option.bind_eq_bind, Option.bind_some,
    skipSpaces_append hws, skipSpaces_cons (show isSpace ',' = false from rfl), hfields]
  rfl

/-! ## Reading -/

/-- No value is written as nothing, so that every level of nesting takes fuel. -/
theorem length_pos_of_writtenAs (h : j.WrittenAs cs) : 0 < cs.length := by
  obtain ⟨c, ds, rfl, -⟩ := exists_cons_of_writtenAs h
  simp

mutual

/-- A text of a value is read as the value, whatever stands behind it. -/
theorem readValue_of_writtenAs : ∀ (j : Json) {cs : List Char}, j.WrittenAs cs →
    ∀ {fuel : Nat} {rest : List Char}, 2 * cs.length ≤ fuel + 1 → ValueEnd rest →
      readValue (fuel + 1) (cs ++ rest) = some (j, rest)
  | .null, _, rfl, _, _, _, _ => rfl
  | .bool true, _, rfl, _, _, _, _ => rfl
  | .bool false, _, rfl, _, _, _, _ => rfl
  | .int n, _, rfl, _, _, _, hrest => by
    obtain ⟨c, cs, hcs, hc⟩ := exists_toString_eq_cons n
    have hread := readNumber_toString n hrest
    rw [hcs, List.cons_append] at hread ⊢
    rw [readValue_number hc, hread]
  | .real _, _, h, _, _, _, _ => h.elim
  | .str s, _, rfl, _, _, _, _ => readValue_string s
  | .broken _, _, h, _, _, _, _ => h.elim
  | .arr [], _, ⟨inner, rfl, hinner⟩, _, _, _, _ => by
    rw [List.cons_append, List.append_assoc]
    exact readValue_emptyList hinner
  | .arr (j :: js), _, ⟨inner, rfl, hinner⟩, _, _, hfuel, _ => by
    simp only [List.length_cons, List.length_append, List.length_nil] at hfuel
    rw [List.cons_append, List.append_assoc]
    exact readValue_list (skipSpaces_items_ne hinner)
      (readItems_of_writtenAs (j :: js) hinner (by simp) (by omega))
  | .obj [], _, ⟨inner, rfl, hinner⟩, _, _, _, _ => by
    rw [List.cons_append, List.append_assoc]
    exact readValue_emptyObject hinner
  | .obj (f :: fs), _, ⟨inner, rfl, hinner⟩, _, _, hfuel, _ => by
    simp only [List.length_cons, List.length_append, List.length_nil] at hfuel
    rw [List.cons_append, List.append_assoc]
    exact readValue_object (skipSpaces_fields_ne hinner)
      (readFields_of_writtenAs (f :: fs) hinner (by simp) (by omega))

/-- Items written read back, given fuel for their length. -/
theorem readItems_of_writtenAs : ∀ (js : List Json) {cs : List Char}, ItemsWrittenAs js cs →
    js ≠ [] → ∀ {fuel : Nat} {rest : List Char}, 2 * cs.length + 1 ≤ fuel →
      readItems fuel (cs ++ ']' :: rest) = some (js, rest)
  | [], _, _, hne, _, _, _ => absurd rfl hne
  | j :: js, cs, h, _, fuel, rest, hfuel => by
    obtain ⟨before, text, behind, more, rfl, hbefore, htext, hbehind, hmore⟩ := h
    have hpos := length_pos_of_writtenAs htext
    simp only [List.length_append] at hfuel
    obtain ⟨fuel, rfl⟩ : ∃ n, fuel = n + 2 := ⟨fuel - 2, by omega⟩
    have hread {after : List Char} (hafter : ValueEnd after) :
        readValue (fuel + 1) (before ++ (text ++ after)) = some (j, after) := by
      rw [← readValue_skipSpaces, skipSpaces_append hbefore, readValue_skipSpaces]
      exact readValue_of_writtenAs j htext (by omega) hafter
    simp only [List.append_assoc]
    cases js with
    | nil =>
      obtain rfl : more = [] := hmore
      exact readItems_last (hread (.append hbehind (valueEnd_cons (by simp)))) hbehind
    | cons k js =>
      obtain ⟨items, rfl, hitems⟩ := hmore
      rw [List.length_cons] at hfuel
      exact readItems_comma (hread (.append hbehind (valueEnd_cons (by simp)))) hbehind
        (readItems_of_writtenAs (k :: js) hitems (by simp) (by omega))

/-- Fields written read back, given fuel for their length. -/
theorem readFields_of_writtenAs : ∀ (fs : List (String × Json)) {cs : List Char},
    FieldsWrittenAs fs cs → fs ≠ [] → ∀ {fuel : Nat} {rest : List Char}, 2 * cs.length + 1 ≤ fuel →
      readFields fuel (cs ++ '\x7d' :: rest) = some (some fs, rest)
  | [], _, _, hne, _, _, _ => absurd rfl hne
  | f :: fs, cs, h, _, fuel, rest, hfuel => by
    obtain ⟨before, text, behind, more, rfl, hbefore, htext, hbehind, hmore⟩ := h
    simp only [List.length_append] at hfuel
    obtain ⟨fuel, rfl⟩ : ∃ n, fuel = n + 1 := ⟨fuel - 1, by omega⟩
    have hread {after : List Char} (hafter : ValueEnd after) :
        ReadsField fuel (before ++ (text ++ after)) f after :=
      readsField_of_writtenAs f hbefore htext (by omega) hafter
    simp only [List.append_assoc]
    cases fs with
    | nil =>
      obtain rfl : more = [] := hmore
      exact readFields_last (hread (.append hbehind (valueEnd_cons (by simp)))) hbehind
    | cons g fs =>
      obtain ⟨fields, rfl, hfields⟩ := hmore
      rw [List.length_cons] at hfuel
      exact readFields_comma (hread (.append hbehind (valueEnd_cons (by simp)))) hbehind
        (readFields_of_writtenAs (g :: fs) hfields (by simp) (by omega))

theorem readsField_of_writtenAs : ∀ (f : String × Json) {before cs : List Char}, IsSpaces before →
    FieldWrittenAs f cs → ∀ {fuel : Nat} {rest : List Char}, 2 * cs.length ≤ fuel →
      ValueEnd rest → ReadsField fuel (before ++ (cs ++ rest)) f rest
  | (name, value), before, cs, hbefore, h, fuel, rest, hfuel, hrest => by
    obtain ⟨front, behind, text, rfl, hfront, hbehind, htext⟩ := h
    have hpos := length_pos_of_writtenAs htext
    simp only [List.length_append, List.length_cons] at hfuel
    obtain ⟨fuel, rfl⟩ : ∃ n, fuel = n + 1 := ⟨fuel - 1, by omega⟩
    refine ⟨escaped name.toList ++ '"' :: (front ++ ':' :: (behind ++ (text ++ rest))),
      name.toList, front ++ ':' :: (behind ++ (text ++ rest)), behind ++ (text ++ rest),
      ?_, readString_escaped _ _, String.ofList_toList.symm, ?_, ?_⟩
    · rw [skipSpaces_append hbefore]
      simp [quoted, skipSpaces_cons (show isSpace '"' = false from rfl)]
    · rw [skipSpaces_append hfront, skipSpaces_cons rfl]
    · rw [← readValue_skipSpaces, skipSpaces_append hbehind, readValue_skipSpaces]
      exact readValue_of_writtenAs value htext (by omega) hrest

end

/-- A text in any spacing parses as the value written in it. -/
theorem parse?_of_writtenAs {s : String} {before behind : List Char} (h : j.WrittenAs cs)
    (hs : s.toList = before ++ (cs ++ behind)) (hbefore : IsSpaces before)
    (hbehind : IsSpaces behind) : parse? s = some j := by
  have hread : readValue (2 * s.toList.length + 2) s.toList = some (j, behind) := by
    have hend : ValueEnd behind := by
      have hnil : ValueEnd [] := fun c hc => nomatch hc
      rw [← List.append_nil behind]
      exact hnil.append hbehind
    rw [← readValue_skipSpaces, hs, skipSpaces_append hbefore, readValue_skipSpaces]
    exact readValue_of_writtenAs j h (by simp only [List.length_append]; omega) hend
  have hskip : skipSpaces behind = [] := by
    rw [← List.append_nil behind, skipSpaces_append hbehind]
    rfl
  simp only [parse?, hread, Option.bind_eq_bind, Option.bind_some, hskip, List.isEmpty_nil, if_true]

/-! ## Writing -/

mutual

/-- Made of strings, whole numbers, truth values, lists and objects. -/
def IsPlain : Json → Prop
  | .null => True
  | .bool _ => True
  | .int _ => True
  | .real _ => False
  | .str _ => True
  | .broken _ => False
  | .arr items => ItemsPlain items
  | .obj fields => FieldsPlain fields
termination_by structural j => j

/-- Each item is plain. -/
def ItemsPlain : List Json → Prop
  | [] => True
  | j :: js => j.IsPlain ∧ ItemsPlain js
termination_by structural js => js

/-- The value of each field is plain. -/
def FieldsPlain : List (String × Json) → Prop
  | [] => True
  | f :: fs => FieldPlain f ∧ FieldsPlain fs
termination_by structural fs => fs

/-- The value of the field is plain. -/
def FieldPlain : String × Json → Prop
  | (_, value) => value.IsPlain
termination_by structural f => f

end

theorem itemsPlain_iff {js : List Json} : ItemsPlain js ↔ ∀ j ∈ js, j.IsPlain := by
  induction js with
  | nil => simp [ItemsPlain]
  | cons j js ih => simp [ItemsPlain, ih]

theorem fieldsPlain_iff {fs : List (String × Json)} :
    FieldsPlain fs ↔ ∀ f ∈ fs, f.2.IsPlain := by
  induction fs with
  | nil => simp [FieldsPlain]
  | cons f fs ih => obtain ⟨name, value⟩ := f; simp [FieldsPlain, FieldPlain, ih]

@[simp] theorem isPlain_null : null.IsPlain := trivial

@[simp] theorem isPlain_str (s : String) : (str s).IsPlain := trivial

@[simp] theorem isPlain_nat (n : Nat) : (nat n).IsPlain := trivial

@[simp] theorem isPlain_arr {js : List Json} : (arr js).IsPlain ↔ ∀ j ∈ js, j.IsPlain :=
  itemsPlain_iff

@[simp] theorem isPlain_obj {fs : List (String × Json)} :
    (obj fs).IsPlain ↔ ∀ f ∈ fs, f.2.IsPlain :=
  fieldsPlain_iff

@[simp] theorem isPlain_strings (ss : List String) : (strings ss).IsPlain := by
  simp [strings]

theorem isSpaces_nil : IsSpaces [] := fun _ h => nomatch h

theorem isSpaces_newLine (level : Nat) : IsSpaces (newLine level) := by
  intro c hc
  rcases List.mem_cons.1 hc with rfl | hc
  · rfl
  · rw [List.eq_of_mem_replicate hc]
    rfl

mutual

/-- A value on one line is a text of it. -/
theorem writtenAs_compact : ∀ j : Json, j.IsPlain → j.WrittenAs j.compactChars
  | .null, _ => rfl
  | .bool true, _ => rfl
  | .bool false, _ => rfl
  | .int _, _ => rfl
  | .real _, h => h.elim
  | .str _, _ => rfl
  | .broken _, h => h.elim
  | .arr items, h => ⟨_, rfl, itemsWrittenAs_compact items h⟩
  | .obj fields, h => ⟨_, rfl, fieldsWrittenAs_compact fields h⟩

/-- Items in compact form are written as such, without spaces. -/
theorem itemsWrittenAs_compact : ∀ js : List Json, ItemsPlain js →
    ItemsWrittenAs js (compactItems js)
  | [], _ => isSpaces_nil
  | j :: js, h => by
    refine ⟨[], _, [], _, rfl, isSpaces_nil, writtenAs_compact j h.1, isSpaces_nil, ?_⟩
    cases js with
    | nil => rfl
    | cons k js => exact ⟨_, rfl, itemsWrittenAs_compact (k :: js) h.2⟩

theorem fieldsWrittenAs_compact : ∀ fs : List (String × Json), FieldsPlain fs →
    FieldsWrittenAs fs (compactFields fs)
  | [], _ => isSpaces_nil
  | f :: fs, h => by
    refine ⟨[], _, [], _, rfl, isSpaces_nil, fieldWrittenAs_compact f h.1, isSpaces_nil, ?_⟩
    cases fs with
    | nil => rfl
    | cons g fs => exact ⟨_, rfl, fieldsWrittenAs_compact (g :: fs) h.2⟩

theorem fieldWrittenAs_compact : ∀ f : String × Json, FieldPlain f →
    FieldWrittenAs f (compactField f)
  | (_, value), h => ⟨[], [], _, rfl, isSpaces_nil, isSpaces_nil, writtenAs_compact value h⟩

end

mutual

/-- A value over several lines is a text of it. -/
theorem writtenAs_pretty : ∀ (level : Nat) (j : Json), j.IsPlain →
    j.WrittenAs (j.prettyChars level)
  | _, .null, _ => rfl
  | _, .bool true, _ => rfl
  | _, .bool false, _ => rfl
  | _, .int _, _ => rfl
  | _, .real _, h => h.elim
  | _, .str _, _ => rfl
  | _, .broken _, h => h.elim
  | _, .arr [], _ => ⟨[], rfl, isSpaces_nil⟩
  | level, .arr (j :: js), h => by
    refine ⟨prettyItems (level + 1) (j :: js) ++ newLine level, ?_,
      itemsWrittenAs_pretty (level + 1) (j :: js) h (isSpaces_newLine level)⟩
    simp [prettyChars]
  | _, .obj [], _ => ⟨[], rfl, isSpaces_nil⟩
  | level, .obj (f :: fs), h => by
    refine ⟨prettyFields (level + 1) (f :: fs) ++ newLine level, ?_,
      fieldsWrittenAs_pretty (level + 1) (f :: fs) h (isSpaces_newLine level)⟩
    simp [prettyChars]

/-- Items in pretty form are written as such, each on a line of its own. -/
theorem itemsWrittenAs_pretty : ∀ (level : Nat) (js : List Json), ItemsPlain js →
    ∀ {ws : List Char}, IsSpaces ws → ItemsWrittenAs js (prettyItems level js ++ ws)
  | _, [], _, _, hws => hws
  | level, [j], h, ws, hws => by
    refine ⟨newLine level, _, ws, [], ?_, isSpaces_newLine level, writtenAs_pretty level j h.1,
      hws, rfl⟩
    simp [prettyItems]
  | level, j :: k :: js, h, ws, hws => by
    refine ⟨newLine level, _, [], ',' :: (prettyItems level (k :: js) ++ ws), ?_,
      isSpaces_newLine level, writtenAs_pretty level j h.1, isSpaces_nil,
      _, rfl, itemsWrittenAs_pretty level (k :: js) h.2 hws⟩
    simp [prettyItems]

theorem fieldsWrittenAs_pretty : ∀ (level : Nat) (fs : List (String × Json)), FieldsPlain fs →
    ∀ {ws : List Char}, IsSpaces ws → FieldsWrittenAs fs (prettyFields level fs ++ ws)
  | _, [], _, _, hws => hws
  | level, [f], h, ws, hws => by
    refine ⟨newLine level, _, ws, [], ?_, isSpaces_newLine level, fieldWrittenAs_pretty level f h.1,
      hws, rfl⟩
    simp [prettyFields]
  | level, f :: g :: fs, h, ws, hws => by
    refine ⟨newLine level, _, [], ',' :: (prettyFields level (g :: fs) ++ ws), ?_,
      isSpaces_newLine level, fieldWrittenAs_pretty level f h.1, isSpaces_nil,
      _, rfl, fieldsWrittenAs_pretty level (g :: fs) h.2 hws⟩
    simp [prettyFields]

theorem fieldWrittenAs_pretty : ∀ (level : Nat) (f : String × Json), FieldPlain f →
    FieldWrittenAs f (prettyField level f)
  | level, (_, value), h =>
    ⟨[], [' '], _, rfl, isSpaces_nil, by rintro _ (_ | ⟨_, ⟨⟩⟩); rfl,
      writtenAs_pretty level value h⟩

end

/-- A value on one line is read as it was written. -/
theorem parse?_compact (h : j.IsPlain) : parse? j.compact = some j :=
  parse?_of_writtenAs (writtenAs_compact j h) (by simp [compact]) isSpaces_nil isSpaces_nil

/-- A value over several lines is read as it was written. -/
theorem parse?_pretty (h : j.IsPlain) : parse? j.pretty = some j :=
  parse?_of_writtenAs (writtenAs_pretty 0 j h) (by simp [pretty]) isSpaces_nil isSpaces_nil

/-! ## One line -/

theorem ne_newline_of_mem_escapedChar {d : Char} (h : d ∈ escapedChar c) : d ≠ '\n' := by
  have hhex : ∀ n < 0x10, hexChar n ≠ '\n' := by decide
  have hletter {x : Char} (hx : x ≠ '\n') (h : d ∈ ['\\', x]) : d ≠ '\n' := by
    simp only [List.mem_cons, List.not_mem_nil, or_false] at h
    rcases h with rfl | rfl
    · decide
    · exact hx
  unfold escapedChar at h
  split_ifs at h with hquote hback hlow
  iterate 7 exact hletter (by decide) h
  · simp only [List.mem_cons, List.not_mem_nil, or_false] at h
    rcases h with rfl | rfl | rfl | rfl | rfl | rfl
    iterate 4 decide
    · exact hhex _ (by omega)
    · exact hhex _ (by omega)
  · rw [List.mem_singleton.1 h]
    rintro rfl
    exact hlow (by decide)

/-- A quoted string holds no line end, since it is escaped. -/
theorem ne_newline_of_mem_quoted {d : Char} {s : String} (h : d ∈ quoted s) : d ≠ '\n' := by
  have hescaped : ∀ cs : List Char, ∀ e ∈ escaped cs, e ≠ '\n' := by
    intro cs
    induction cs with
    | nil => simp [escaped]
    | cons c cs ih =>
      intro e he
      rcases List.mem_append.1 he with he | he
      · exact ne_newline_of_mem_escapedChar he
      · exact ih e he
  rcases List.mem_cons.1 h with rfl | h
  · decide
  · rcases List.mem_append.1 h with h | h
    · exact hescaped _ _ h
    · rw [List.mem_singleton.1 h]
      decide

theorem ne_newline_of_mem_toString {d : Char} {n : Int} (h : d ∈ (toString n).toList) :
    d ≠ '\n' := by
  have hdigits {m : Nat} (h : d ∈ Nat.toDigits 10 m) : d ≠ '\n' := by
    rintro rfl
    exact absurd (isDigit_of_mem_toDigits h) (by decide)
  cases n with
  | ofNat n => exact hdigits (toList_toString_natCast n ▸ h)
  | negSucc n =>
    rw [toList_toString_negSucc] at h
    rcases List.mem_cons.1 h with rfl | h
    · decide
    · exact hdigits h

mutual

/-- The text of a value on one line has no line break. -/
theorem ne_newline_of_mem_compactChars : ∀ j : Json, j.IsPlain → ∀ d ∈ j.compactChars, d ≠ '\n'
  | .null, _ => by simp [compactChars]
  | .bool true, _ => by simp [compactChars]
  | .bool false, _ => by simp [compactChars]
  | .int _, _ => fun _ => ne_newline_of_mem_toString
  | .real _, h => h.elim
  | .str _, _ => fun _ => ne_newline_of_mem_quoted
  | .broken _, h => h.elim
  | .arr items, h => by
    have hitems := ne_newline_of_mem_compactItems items h
    rintro d hd
    simp only [compactChars, List.mem_cons, List.mem_append, List.not_mem_nil, or_false] at hd
    rcases hd with rfl | hd | rfl
    · decide
    · exact hitems d hd
    · decide
  | .obj fields, h => by
    have hfields := ne_newline_of_mem_compactFields fields h
    rintro d hd
    simp only [compactChars, List.mem_cons, List.mem_append, List.not_mem_nil, or_false] at hd
    rcases hd with rfl | hd | rfl
    · decide
    · exact hfields d hd
    · decide

/-- The compact form is one line, items included. -/
theorem ne_newline_of_mem_compactItems : ∀ js : List Json, ItemsPlain js →
    ∀ d ∈ compactItems js, d ≠ '\n'
  | [], _ => by simp [compactItems]
  | j :: js, h => by
    have hvalue := ne_newline_of_mem_compactChars j h.1
    have hrest := ne_newline_of_mem_compactItems js h.2
    intro d hd
    rcases List.mem_append.1 hd with hd | hd
    · exact hvalue d hd
    · split at hd
      · cases hd
      · rcases List.mem_cons.1 hd with rfl | hd
        · decide
        · exact hrest d hd

theorem ne_newline_of_mem_compactFields : ∀ fs : List (String × Json), FieldsPlain fs →
    ∀ d ∈ compactFields fs, d ≠ '\n'
  | [], _ => by simp [compactFields]
  | f :: fs, h => by
    have hfield := ne_newline_of_mem_compactField f h.1
    have hrest := ne_newline_of_mem_compactFields fs h.2
    intro d hd
    rcases List.mem_append.1 hd with hd | hd
    · exact hfield d hd
    · split at hd
      · cases hd
      · rcases List.mem_cons.1 hd with rfl | hd
        · decide
        · exact hrest d hd

theorem ne_newline_of_mem_compactField : ∀ f : String × Json, FieldPlain f →
    ∀ d ∈ compactField f, d ≠ '\n'
  | (_, value), h => by
    have hvalue := ne_newline_of_mem_compactChars value h
    intro d hd
    rcases List.mem_append.1 hd with hd | hd
    · exact ne_newline_of_mem_quoted hd
    · rcases List.mem_cons.1 hd with rfl | hd
      · decide
      · exact hvalue d hd

end

/-- A value on one line has no line break. -/
theorem newline_not_mem_compact (h : j.IsPlain) : '\n' ∉ j.compact.toList := by
  intro hmem
  rw [compact, String.toList_ofList] at hmem
  exact ne_newline_of_mem_compactChars j h _ hmem rfl

end ArchiveLabels.Json
