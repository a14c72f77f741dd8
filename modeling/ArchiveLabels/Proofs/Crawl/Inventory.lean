import ArchiveLabels.Crawl.Inventory
import ArchiveLabels.Proofs.Crawl.Exclusions
import ArchiveLabels.Proofs.Label.Growth
import Mathlib.Data.List.GetD

/-!
# What inventories exclude

A row of the table of a collection lists a secondary member (`TableLayout.ListsSecondary`), a
primary one, or none, if it has a fault (`TableLayout.Faulty`, `TableLayout.faulty_iff`). The
exclusions of an inventory are the steps that its rows ask for, behind the step that leaves out the
table (`TableLayout.exclusions_eq`), so that what is known of steps holds for rows
(`TableLayout.excludes_exclusions`). `TableLayout.ofTree_eq_ok_iff` says which layouts labels
describe; their numbers of fields start at 1.
-/

namespace ArchiveLabels

open Label Text

theorem MemberStatus.parse?_eq_secondary_iff {word : String} :
    parse? word = some .secondary ↔ lower (trim word) ∈ ["s", "secondary"] := by
  unfold parse?
  split <;> simp_all

theorem MemberStatus.parse?_eq_none_iff {word : String} :
    parse? word = none ↔ lower (trim word) ∉ ["p", "primary", "s", "secondary"] := by
  unfold parse?
  split <;> simp_all

namespace TableLayout

variable {l : TableLayout} {row : Option (List String)} {rows : List (Option (List String))}
  {fields : List String} {field : String} {n : Nat} {i : Identifier} {cwd table p : Path} {t : Tree}

/-! ## Rows -/

/-- The field of number `n`, counted from 1. -/
def HasField (fields : List String) (n : Nat) (field : String) : Prop :=
  ∃ k, n = k + 1 ∧ fields[k]? = some field

/-- The row lists the product as a secondary member. -/
def ListsSecondary (l : TableLayout) (row : Option (List String)) (i : Identifier) : Prop :=
  ∃ fields status token, row = some fields ∧
    HasField fields l.statusField status ∧ lower (trim status) ∈ ["s", "secondary"] ∧
    HasField fields l.identifierField token ∧ Identifier.parse token = .ok i

/-- What is wrong with a row. -/
inductive Faulty (l : TableLayout) : Option (List String) → Prop
  /-- It cannot be read. -/
  | unreadable : Faulty l none
  /-- It ends before one of the two fields. -/
  | tooShort {fields : List String}
      (h : fields.length < l.statusField ∨ fields.length < l.identifierField) :
      Faulty l (some fields)
  /-- All its fields are blank. -/
  | blank {fields : List String} (h : ∀ field ∈ fields, trim field = "") : Faulty l (some fields)
  /-- It does not say whether the member is a primary one. -/
  | unknownStatus {fields : List String} {status : String}
      (hfield : HasField fields l.statusField status)
      (h : lower (trim status) ∉ ["p", "primary", "s", "secondary"]) : Faulty l (some fields)
  /-- It names no product. -/
  | malformed {fields : List String} {token : String}
      (hfield : HasField fields l.identifierField token)
      (h : ∀ i, Identifier.parse token ≠ .ok i) : Faulty l (some fields)

theorem getD_of_hasField (h : HasField fields n field) : fields.getD (n - 1) "" = field := by
  obtain ⟨k, rfl, hk⟩ := h
  simp [List.getD_eq_getElem?_getD, hk]

theorem getD_of_length_lt (h : fields.length < n) : fields.getD (n - 1) "" = "" :=
  List.getD_eq_default _ _ (by omega)

/-- A row has the field, or ends before it. -/
theorem hasField_or_length_lt (hn : 1 ≤ n) (fields : List String) :
    HasField fields n (fields.getD (n - 1) "") ∨ fields.length < n := by
  rcases Nat.lt_or_ge (n - 1) fields.length with hlt | hle
  · refine .inl ⟨n - 1, by omega, ?_⟩
    rw [List.getD_eq_getElem _ _ hlt, List.getElem?_eq_getElem hlt]
  · exact .inr (by omega)

theorem member?_eq_some_iff {m : Member} : l.member? fields = some m ↔
    MemberStatus.parse? (fields.getD (l.statusField - 1) "") = some m.status ∧
      Identifier.parse (fields.getD (l.identifierField - 1) "") = .ok m.identifier := by
  unfold member?
  cases MemberStatus.parse? (fields.getD (l.statusField - 1) "") with
  | none => simp
  | some status =>
    cases Identifier.parse (fields.getD (l.identifierField - 1) "") with
    | error e => simp [Except.toOption]
    | ok i => cases m; simp [Except.toOption]

theorem member?_eq_none_iff : l.member? fields = none ↔
    MemberStatus.parse? (fields.getD (l.statusField - 1) "") = none ∨
      ∀ i, Identifier.parse (fields.getD (l.identifierField - 1) "") ≠ .ok i := by
  unfold member?
  cases MemberStatus.parse? (fields.getD (l.statusField - 1) "") with
  | none => simp
  | some status =>
    cases Identifier.parse (fields.getD (l.identifierField - 1) "") with
    | error e => simp [Except.toOption]
    | ok i => simp [Except.toOption]

/-- A row lists a secondary product when its two fields say so. -/
theorem listsSecondary_iff (hs : 1 ≤ l.statusField) (hi : 1 ≤ l.identifierField) :
    l.ListsSecondary row i ↔ row.bind l.member? = some ⟨.secondary, i⟩ := by
  constructor
  · rintro ⟨fields, status, token, rfl, hstatus, hword, htoken, hparse⟩
    rw [Option.bind_some, member?_eq_some_iff, getD_of_hasField hstatus, getD_of_hasField htoken]
    exact ⟨MemberStatus.parse?_eq_secondary_iff.mpr hword, hparse⟩
  · intro h
    obtain ⟨fields, rfl, hm⟩ := Option.bind_eq_some_iff.mp h
    obtain ⟨hstatus, hparse⟩ := member?_eq_some_iff.mp hm
    rcases hasField_or_length_lt hs fields with hfield | hlt
    · rcases hasField_or_length_lt hi fields with hfield' | hlt
      · exact ⟨fields, _, _, rfl, hfield, MemberStatus.parse?_eq_secondary_iff.mp hstatus, hfield',
          hparse⟩
      · rw [getD_of_length_lt hlt] at hparse
        cases hparse
    · rw [getD_of_length_lt hlt] at hstatus
      cases hstatus

/-! ### Faults -/

theorem parse?_of_blank (h : trim field = "") : MemberStatus.parse? field = none := by
  rw [MemberStatus.parse?_eq_none_iff, h]
  decide

/-- A faulty row lists nothing. -/
theorem bind_member?_of_faulty (h : l.Faulty row) : row.bind l.member? = none := by
  cases h with
  | unreadable => rfl
  | @tooShort fields h =>
    rw [Option.bind_some, member?_eq_none_iff]
    refine h.imp (fun hlt => ?_) fun hlt => ?_
    · rw [getD_of_length_lt hlt]
      rfl
    · rw [getD_of_length_lt hlt]
      nofun
  | @blank fields h =>
    rw [Option.bind_some, member?_eq_none_iff]
    refine .inl (parse?_of_blank ?_)
    rcases Nat.lt_or_ge (l.statusField - 1) fields.length with hlt | hle
    · rw [List.getD_eq_getElem _ _ hlt]
      exact h _ (List.getElem_mem hlt)
    · rw [List.getD_eq_default _ _ hle]
      rfl
  | unknownStatus hfield h =>
    rw [Option.bind_some, member?_eq_none_iff, getD_of_hasField hfield]
    exact .inl (MemberStatus.parse?_eq_none_iff.mpr h)
  | malformed hfield h =>
    rw [Option.bind_some, member?_eq_none_iff, getD_of_hasField hfield]
    exact .inr h

/-- A row lists no member just if something is wrong with it. -/
theorem faulty_iff (hs : 1 ≤ l.statusField) (hi : 1 ≤ l.identifierField) :
    l.Faulty row ↔ row.bind l.member? = none := by
  refine ⟨bind_member?_of_faulty, fun h => ?_⟩
  cases row with
  | none => exact .unreadable
  | some fields =>
    rw [Option.bind_some, member?_eq_none_iff] at h
    rcases h with hstatus | hparse
    · rcases hasField_or_length_lt hs fields with hfield | hlt
      · exact .unknownStatus hfield (MemberStatus.parse?_eq_none_iff.mp hstatus)
      · exact .tooShort (.inl hlt)
    · rcases hasField_or_length_lt hi fields with hfield | hlt
      · exact .malformed hfield hparse
      · exact .tooShort (.inr hlt)

/-- A row with a fault might as well not be there. -/
theorem membersOf_faulty (h : l.Faulty row) (before after : List (Option (List String))) :
    l.membersOf (before ++ row :: after) = l.membersOf (before ++ after) := by
  simp only [membersOf, List.filterMap_append, List.filterMap_cons, bind_member?_of_faulty h]

/-! ## Steps -/

/-- The step that a row asks for : a secondary member is left out. -/
def step? (l : TableLayout) (row : Option (List String)) : Option Exclusions.Step :=
  ((row.bind l.member?).filter fun m => m.status = .secondary).map fun m => .add m.identifier

theorem step?_eq_some_iff : l.step? row = some (.add i) ↔
    row.bind l.member? = some ⟨.secondary, i⟩ := by
  rw [step?, Option.map_eq_some_iff]
  constructor
  · rintro ⟨⟨status, j⟩, hm, hstep⟩
    obtain ⟨hm, hstatus⟩ := Option.filter_eq_some_iff.mp hm
    obtain rfl := Exclusions.Step.add.inj hstep
    obtain rfl : status = .secondary := of_decide_eq_true hstatus
    exact hm
  · intro h
    exact ⟨⟨.secondary, i⟩, Option.filter_eq_some_iff.mpr ⟨h, rfl⟩, rfl⟩

/-- The exclusions of an inventory are the steps that its rows ask for. -/
theorem exclusions_eq (l : TableLayout) (cwd p table : Path)
    (rows : List (Option (List String))) :
    (⟨p, table, l.membersOf rows⟩ : Inventory).exclusions cwd =
      Exclusions.empty.applyAll cwd (.claim table :: rows.filterMap l.step?) := by
  have hsteps : rows.filterMap l.step? =
      ((l.membersOf rows).filter fun m => m.status = .secondary).map
        fun m => .add m.identifier := by
    rw [membersOf, List.filter_filterMap, List.map_filterMap]
    rfl
  rw [hsteps, Inventory.exclusions, Exclusions.applyAll, List.foldl_cons, List.foldl_map]
  rfl

/-! ## Exclusions -/

/-- The exclusions leave out the table and the secondary members that the rows list. -/
structure Excludes (l : TableLayout) (cwd table : Path) (rows : List (Option (List String)))
    (e : Exclusions) : Prop where
  /-- No product is listed twice. -/
  nodup : e.nonPrimary.Nodup
  /-- The products listed are those that some row lists as a secondary member. -/
  mem_nonPrimary_iff : ∀ i, i ∈ e.nonPrimary ↔ ∃ row ∈ rows, l.ListsSecondary row i
  /-- They stand in the order in which rows first list them. -/
  inOrder : e.nonPrimary.Pairwise fun i j => ∃ before row after,
    rows = before ++ row :: after ∧ l.ListsSecondary row i ∧ ∀ r ∈ before, ¬l.ListsSecondary r j
  /-- No file is left out but the table. -/
  isClaimed_iff : ∀ p, e.isClaimed cwd p = true ↔ Path.absolute cwd p = Path.absolute cwd table

/-- A step behind that for the table stands for a row, and the steps before it for the rows before. -/
theorem exists_row_of_steps {before after : List Exclusions.Step}
    (h : .claim table :: rows.filterMap l.step? = before ++ .add i :: after) :
    ∃ rows₁ row rows₂, rows = rows₁ ++ row :: rows₂ ∧ l.step? row = some (.add i) ∧
      ∀ r ∈ rows₁, ∀ s, l.step? r = some s → s ∈ before := by
  rcases before with _ | ⟨s, before⟩
  · cases h
  · have htail : rows.filterMap l.step? = before ++ .add i :: after := (List.cons.inj h).2
    obtain ⟨rows₁, rest, rfl, hbefore, hrest⟩ := List.filterMap_eq_append_iff.mp htail
    obtain ⟨skipped, row, rows₂, rfl, hskipped, hrow, -⟩ := List.filterMap_eq_cons_iff.mp hrest
    refine ⟨rows₁ ++ skipped, row, rows₂, by simp, hrow, fun r hr s hs => ?_⟩
    rcases List.mem_append.mp hr with hr | hr
    · rw [← hbefore]
      exact List.mem_cons_of_mem _ (List.mem_filterMap.mpr ⟨r, hr, hs⟩)
    · rw [hskipped r hr] at hs
      cases hs

/-- The exclusions of an inventory are its secondary members and the table itself. -/
theorem excludes_exclusions (hs : 1 ≤ l.statusField) (hi : 1 ≤ l.identifierField)
    (cwd p table : Path) (rows : List (Option (List String))) :
    l.Excludes cwd table rows
      ((⟨p, table, l.membersOf rows⟩ : Inventory).exclusions cwd) := by
  rw [exclusions_eq]
  have h := Exclusions.answers_applyAll cwd (.claim table :: rows.filterMap l.step?)
  have hstep {row : Option (List String)} {i : Identifier} :
      l.step? row = some (.add i) ↔ l.ListsSecondary row i :=
    step?_eq_some_iff.trans (listsSecondary_iff hs hi).symm
  refine ⟨h.nodup, fun i => ?_, h.inOrder.imp ?_, fun q => ?_⟩
  · rw [h.mem_nonPrimary_iff]
    simp [hstep]
  · rintro i j ⟨before, after, hsplit, hj⟩
    obtain ⟨rows₁, row, rows₂, hrows, hrow, hbefore⟩ := exists_row_of_steps hsplit
    exact ⟨rows₁, row, rows₂, hrows, hstep.mp hrow,
      fun r hr hlists => hj (hbefore r hr _ (hstep.mpr hlists))⟩
  · rw [h.isClaimed_iff]
    have hclaim {q : Path} : .claim q ∈ Exclusions.Step.claim table :: rows.filterMap l.step? ↔
        q = table := by
      simp only [List.mem_cons, Exclusions.Step.claim.injEq, or_iff_left_iff_imp]
      intro hmem
      obtain ⟨row, -, hrow⟩ := List.mem_filterMap.mp hmem
      rw [step?, Option.map_eq_some_iff] at hrow
      obtain ⟨m, -, hm⟩ := hrow
      cases hm
    simp only [hclaim, exists_eq_left]
    exact eq_comm

/-! ## Layouts -/

/-- The label gives the number of the field of the given name. -/
def Numbers (t : Tree) (name : String) (n : Nat) : Prop :=
  ∃ v, (fieldNumber name).firstValue? t 0 = some v ∧ positive? v = some n

/-- The label describes the layout. -/
structure Describes (t : Tree) (l : TableLayout) : Prop where
  fileName : tableFile.firstValue? t 0 = some l.fileName
  delimiter : ∃ name, delimiterName.firstValue? t 0 = some name ∧
    delimiter? name = some l.delimiter
  statusField : Numbers t "Member_Status" l.statusField
  identifierField : Numbers t "LIDVID_LID" l.identifierField

theorem Numbers.pos {name : String} (h : Numbers t name n) : 1 ≤ n := by
  obtain ⟨v, -, hn⟩ := h
  exact of_decide_eq_true (Option.filter_eq_some_iff.mp hn).2

theorem value_eq_ok_iff {s : Selector} {what v : String} :
    value p t s what = .ok v ↔ s.firstValue? t 0 = some v := by
  unfold value
  cases s.firstValue? t 0 <;> simp

/-- A field number is taken when it is a number from 1 upwards. -/
theorem field_eq_ok_iff {name : String} : TableLayout.field p t name = .ok n ↔ Numbers t name n := by
  unfold TableLayout.field Numbers value
  cases (fieldNumber name).firstValue? t 0 with
  | none => simp [bind, Except.bind]
  | some v => cases hn : positive? v <;> simp [bind, Except.bind, hn, pure, Except.pure]

/-- The layouts that are accepted are those that labels describe. -/
theorem ofTree_eq_ok_iff : ofTree p t = .ok l ↔ Describes t l := by
  constructor
  · intro h
    obtain ⟨name, hname, h⟩ := Xml.exists_of_bind_eq_ok h
    cases hd : delimiter? name with
    | none =>
      rw [hd] at h
      cases h
    | some d =>
      rw [hd] at h
      obtain ⟨file, hfile, h⟩ := Xml.exists_of_bind_eq_ok h
      obtain ⟨status, hstatus, h⟩ := Xml.exists_of_bind_eq_ok h
      obtain ⟨identifier, hidentifier, h⟩ := Xml.exists_of_bind_eq_ok h
      obtain rfl := Except.ok.inj h
      exact ⟨value_eq_ok_iff.mp hfile, ⟨name, value_eq_ok_iff.mp hname, hd⟩,
        field_eq_ok_iff.mp hstatus, field_eq_ok_iff.mp hidentifier⟩
  · rintro ⟨hfile, ⟨name, hname, hd⟩, hstatus, hidentifier⟩
    simp only [ofTree, value_eq_ok_iff.mpr hname, hd, value_eq_ok_iff.mpr hfile,
      field_eq_ok_iff.mpr hstatus, field_eq_ok_iff.mpr hidentifier, bind, Except.bind, pure,
      Except.pure]

end TableLayout

/-! ## Collections -/

namespace FileSystem

variable {fs : FileSystem} {p : Path} {t : Tree} {l : TableLayout}

theorem mapError_ok {ε ε' α : Type} (f : ε → ε') (a : α) :
    (Except.ok a : Except ε α).mapError f = .ok a :=
  rfl

/-- An inventory is read when its label, its layout and its table are. -/
theorem readInventory_eq_ok {text : String} (hlabel : fs.readLabel p = .ok t)
    (hlayout : TableLayout.ofTree p t = .ok l)
    (htext : fs.readText (p.directory.join ⟨l.fileName⟩) = .ok text) :
    fs.readInventory p = .ok ⟨p, p.directory.join ⟨l.fileName⟩, l.members text⟩ := by
  simp only [readInventory, hlabel, hlayout, htext, mapError_ok, bind, Except.bind, pure,
    Except.pure]

/-- **Inventories exclude their secondary members.** If the label of a collection can be read and
describes a layout, the numbers of the fields in it start at 1. If the table can be read too, there
is an inventory, whose exclusions leave out the file of the table and no other, and the products
that rows list as secondary members, each once and in the order of the first rows that do. So it is
for rows of whatever fields, readable or not. A row with a fault might as well not be there. -/
theorem excludes_of_readInventory (hlabel : fs.readLabel p = .ok t)
    (hlayout : TableLayout.ofTree p t = .ok l) :
    (1 ≤ l.statusField ∧ 1 ≤ l.identifierField) ∧
    (∀ text, fs.readText (p.directory.join ⟨l.fileName⟩) = .ok text →
      ∃ i, fs.readInventory p = .ok i ∧ ∀ cwd,
        l.Excludes cwd (p.directory.join ⟨l.fileName⟩) ((rows l.delimiter text).map some)
          (i.exclusions cwd)) ∧
    (∀ cwd table rows,
      l.Excludes cwd table rows ((⟨p, table, l.membersOf rows⟩ : Inventory).exclusions cwd)) ∧
    ∀ before row after, l.Faulty row →
      l.membersOf (before ++ row :: after) = l.membersOf (before ++ after) := by
  have hd := TableLayout.ofTree_eq_ok_iff.mp hlayout
  have hs := hd.statusField.pos
  have hi := hd.identifierField.pos
  refine ⟨⟨hs, hi⟩, fun text htext => ?_, fun cwd => TableLayout.excludes_exclusions hs hi cwd p,
    fun before row after h => TableLayout.membersOf_faulty h before after⟩
  exact ⟨_, readInventory_eq_ok hlabel hlayout htext,
    fun cwd => TableLayout.excludes_exclusions hs hi cwd p _ _⟩

/-- A collection that has the identifier in the first field and the status in the third. -/
def collectionLabel : String :=
  "<Collection>
    <File_Area_Inventory>
      <File><file_name>t.csv</file_name></File>
      <Inventory>
        <field_delimiter>Vertical Bar</field_delimiter>
        <Record_Delimited>
          <Field_Delimited><name>LIDVID_LID</name><field_number>1</field_number></Field_Delimited>
          <Field_Delimited><name>Member_Status</name><field_number>3</field_number></Field_Delimited>
        </Record_Delimited>
      </Inventory>
    </File_Area_Inventory>
  </Collection>"

/-- The layout that it describes. -/
def collectionLayout : TableLayout :=
  ⟨"t.csv", '|', 3, 1⟩

/-- A table with secondary members, one of them twice, a primary one, and rows that are short,
blank, of unknown status and without identifier. -/
def collectionTable : String :=
  "urn:b||S\nurn:short\nurn:p||primary\n ||\nurn:x||T\n::2||S\n urn:a::2 ||seCONDary|\nurn:b||s"

/-- The files of the collection. -/
def collectionFiles : FileSystem where
  root := .entry "c" (.directory
    (.entry "c.xml" (.file (Utf8.encode collectionLabel) .epoch)
      (.entry "t.csv" (.file (Utf8.encode collectionTable) .epoch) .empty))) .empty
  here := []
  clock := .epoch
  printed := ""

set_option maxRecDepth 100000 in
theorem ofTree_collectionLabel : ∃ t, collectionFiles.readLabel ⟨"c/c.xml"⟩ = .ok t ∧
    TableLayout.ofTree ⟨"c/c.xml"⟩ t = .ok collectionLayout := by
  have hchars : collectionLabel.toList = _ := String.toList_ofList
  have hread : ((Tree.ofText .modern collectionLabel).mapError (.collectionLabel ⟨"c/c.xml"⟩)).bind
      (TableLayout.ofTree ⟨"c/c.xml"⟩) = .ok collectionLayout := by
    rw [Tree.ofText, Xml.readLabel, Xml.tokens, Cursor.ofString, hchars]
    decide +kernel
  rw [readLabel_of_read (d := .modern) (by decide +kernel) rfl]
  cases ht : Tree.ofText .modern collectionLabel with
  | error e =>
    rw [ht] at hread
    cases hread
  | ok t =>
    rw [ht] at hread
    exact ⟨t, rfl, hread⟩

/-- The rows with a fault do not matter, and the product that is listed twice is left out once. -/
theorem excludes_of_readInventory_faulty :
    ∃ t l i, collectionFiles.readLabel ⟨"c/c.xml"⟩ = .ok t ∧
      TableLayout.ofTree ⟨"c/c.xml"⟩ t = .ok l ∧ (1 ≤ l.statusField ∧ 1 ≤ l.identifierField) ∧
      collectionFiles.readInventory ⟨"c/c.xml"⟩ = .ok i ∧
      (i.exclusions ⟨"/"⟩).nonPrimary = [⟨"urn:b", none⟩, ⟨"urn:a", some "2"⟩] ∧
      l.membersOf [some ["urn:b", "", "S"], some ["::2", "", "S"], none] =
        l.membersOf [some ["urn:b", "", "S"], none] := by
  obtain ⟨t, hlabel, hlayout⟩ := ofTree_collectionLabel
  have htext : collectionFiles.readText ⟨"c/t.csv"⟩ = .ok collectionTable := readText_of_read rfl
  have hbad : collectionLayout.Faulty (some ["::2", "", "S"]) := .malformed ⟨0, rfl, rfl⟩ nofun
  obtain ⟨hfields, hread, -, hfaulty⟩ := excludes_of_readInventory hlabel hlayout
  obtain ⟨i, hi, -⟩ := hread _ htext
  obtain rfl := Except.ok.inj (hi.symm.trans (readInventory_eq_ok hlabel hlayout htext))
  exact ⟨t, _, _, hlabel, hlayout, hfields, hi, by decide +kernel,
    hfaulty [some ["urn:b", "", "S"]] _ [none] hbad⟩

end FileSystem

end ArchiveLabels
