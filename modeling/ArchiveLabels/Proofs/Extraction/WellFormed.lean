import ArchiveLabels.Proofs.Extraction.Structural
import ArchiveLabels.Proofs.Firsts
import ArchiveLabels.Proofs.Selector.Selection
import ArchiveLabels.Proofs.Text.Blank

/-!
# What extraction yields is well formed

Reports, caches and the comparison of records take for granted that a slot has values, that an
association names a product and that a problem has a place. None of this is checked behind
extraction. Here it is one property of what is extracted (`Extraction.WellFormed`), and both
dialects are shown to have it for every label and every policy (`Label.Tree.wellFormed_extract`).

Where the values of a slot come from is told without the code that collects them : an `Origin`, a
rule or a keyword, says which nodes are meant, and a slot with lines holds the values and lines of
just those of them that have a value, in document order (`Slot.ReadFrom`).
-/

namespace ArchiveLabels

open Label

variable {p : Policy} {t : Tree} {source : String} {is : List Nat} {i : Nat}

/-! ## Well-formed records -/

/-- What a slot with lines is read from. -/
inductive Origin where
  /-- The nodes that a rule picks. -/
  | rule (r : Rule)
  /-- The statements of a keyword. -/
  | keyword (k : String)

namespace Origin

/-- The policy has the rule, for the kind of product that the label declares, or the keyword. -/
def InPolicy (p : Policy) (t : Tree) : Origin → Prop
  | rule r => r ∈ p.rulesFor (t.objectType p)
  | keyword k => k ∈ p.slotKeywords

/-- The origin means node `i`. -/
def Means (t : Tree) (i : Nat) : Origin → Prop
  | rule r => ∃ b ∈ r.selector.branches, b.Leads t 0 i
  | keyword k => i < t.size ∧ t.name i = k ∧ (t.node i).attribute? "kind" = none

end Origin

/-- The nodes are those that the origin means and that have a value, in document order; the slot
holds their values and lines. -/
structure Slot.ReadFrom (s : Slot) (t : Tree) (o : Origin) (nodes : List Nat) : Prop where
  inOrder : nodes.Pairwise (· < ·)
  mem_iff : ∀ i, i ∈ nodes ↔ o.Means t i ∧ t.value i ≠ ""
  values : s.values = nodes.map t.value
  lines : s.lines = nodes.map fun i => (t.pos i).line

/-- A slot has values, none of them empty or with blanks around it. If it has lines, each is the
line of the node that the value was read from. -/
structure Slot.WellFormed (s : Slot) (p : Policy) (t : Tree) : Prop where
  values_ne : s.values ≠ []
  value_ne : ∀ v ∈ s.values, v ≠ ""
  trimmed : ∀ v ∈ s.values, Text.trim v = v
  lines : s.lines = [] ∨ ∃ o nodes, Origin.InPolicy p t o ∧ s.ReadFrom t o nodes

/-- An association comes from a node of the label and names a product; a version it names is not
empty. -/
structure Reference.WellFormed (r : Reference) (t : Tree) (source : String) : Prop where
  source : r.source = source
  lid_ne : r.target.lid ≠ ""
  version_ne : r.target.version ≠ some ""
  line : ∃ i < t.size, r.line = some (t.pos i).line

/-- What is extracted from a label is well formed. -/
structure Extraction.WellFormed (x : Extraction) (p : Policy) (t : Tree) (source : String) :
    Prop where
  title : ∀ s, x.record.title = some s → Text.IsTidy s.toList
  identifier : ∀ i, x.record.identifier = some i → i.lid ≠ ""
  slots : ∀ s ∈ x.record.slots, s.WellFormed p t
  references : ∀ r ∈ x.record.references, r.WellFormed t source
  dataClasses : x.record.dataClasses.Nodup
  problems : ∀ q ∈ x.problems, ∃ i < t.size, q.FoundAt t source i

/-! ## Values -/

theorem Label.Tree.trim_value (t : Tree) (i : Nat) : Text.trim (t.value i) = t.value i :=
  Text.trim_trim _

theorem Selector.ne_of_firstValue? {s : Selector} {v : String} (h : s.firstValue? t i = some v) :
    v ≠ "" := by
  obtain ⟨-, hv⟩ := Option.filter_eq_some_iff.mp h
  exact of_decide_eq_true hv

/-- A selector gives no empty value, and none with blanks around it. -/
theorem Selector.of_mem_values {s : Selector} {v : String} (h : v ∈ s.values t i) :
    v ≠ "" ∧ Text.trim v = v := by
  obtain ⟨hv, hne⟩ := List.mem_filter.mp h
  obtain ⟨j, -, rfl⟩ := List.mem_map.mp hv
  exact ⟨of_decide_eq_true hne, t.trim_value j⟩

/-- A title is tidy : it is not kept if nothing is left of it. -/
theorem Text.isTidy_of_filter {title? : Option String} {s : String}
    (h : (title?.map singleSpaced).filter (· ≠ "") = some s) : IsTidy s.toList := by
  obtain ⟨hs, hne⟩ := Option.filter_eq_some_iff.mp h
  obtain ⟨_, -, rfl⟩ := Option.map_eq_some_iff.mp hs
  exact isTidy_singleSpaced (of_decide_eq_true hne)

/-! ## Slots -/

namespace Slot

variable {s : Slot} {o : Origin} {name : String}

/-- A slot read from nodes has a value and a line for each of them. -/
theorem ReadFrom.wellFormed (h : s.ReadFrom t o is) (hne : is ≠ []) (ho : o.InPolicy p t) :
    s.WellFormed p t where
  values_ne := by
    rw [h.values]
    exact fun hnil => hne (List.map_eq_nil_iff.mp hnil)
  value_ne v hv := by
    rw [h.values] at hv
    obtain ⟨i, hi, rfl⟩ := List.mem_map.mp hv
    exact ((h.mem_iff i).mp hi).2
  trimmed v hv := by
    rw [h.values] at hv
    obtain ⟨i, -, rfl⟩ := List.mem_map.mp hv
    exact t.trim_value i
  lines := .inr ⟨o, is, ho, h⟩

/-- A slot of the entries of the nodes that its origin means. -/
theorem wellFormed_of_ofEntries? (hlt : is.Pairwise (· < ·)) (hmem : ∀ i, i ∈ is ↔ o.Means t i)
    (ho : o.InPolicy p t) (h : ofEntries? name (t.entries is) = some s) : s.WellFormed p t := by
  unfold ofEntries? at h
  split at h
  · cases h
  · rename_i hne
    have hread : s.ReadFrom t o (is.filter fun i => t.value i ≠ "") := by
      obtain rfl := Option.some.inj h
      refine ⟨hlt.filter _, fun i => ?_, List.map_map, List.map_map⟩
      rw [List.mem_filter, hmem, decide_eq_true_eq]
    refine hread.wellFormed (fun hnil => hne ?_) ho
    rw [Tree.entries, hnil]
    rfl

theorem wellFormed_of_ofValues? {vs : List String} (hvs : ∀ v ∈ vs, v ≠ "" ∧ Text.trim v = v)
    (h : ofValues? name vs = some s) : s.WellFormed p t := by
  unfold ofValues? at h
  split at h
  · cases h
  · rename_i hne
    obtain rfl := Option.some.inj h
    exact ⟨fun hnil => hne (List.isEmpty_iff.mpr hnil), fun v hv => (hvs v hv).1,
      fun v hv => (hvs v hv).2, .inl rfl⟩

end Slot

/-- Every slot a rule gives is well formed. -/
theorem Rule.wellFormed_of_slot? (ht : t.PreOrder) {r : Rule} {s : Slot}
    (hr : r ∈ p.rulesFor (t.objectType p)) (h : r.slot? t = some s) : s.WellFormed p t := by
  unfold slot? at h
  split at h
  · cases h
  · rename_i first rest hselect
    obtain ⟨s, hs, rfl⟩ := Option.map_eq_some_iff.mp h
    rw [← hselect] at hs
    have hwell := Slot.wellFormed_of_ofEntries? (o := .rule r) (r.selector.pairwise_select t 0)
      (fun i => Selector.mem_select_iff ht ht.size_pos) hr hs
    -- The unit is no part of what makes a slot well formed.
    exact ⟨hwell.values_ne, hwell.value_ne, hwell.trimmed, hwell.lines.imp_right
      fun ⟨o, nodes, ho, hread⟩ => ⟨o, nodes, ho, hread.inOrder, hread.mem_iff, hread.values,
        hread.lines⟩⟩

/-! ## Identifiers -/

namespace Identifier

theorem ne_of_parseVersion {cs version : List Char} (h : parseVersion cs = .ok version) :
    version ≠ [] := by
  unfold parseVersion at h
  split at h
  · split at h
    · cases h
    · rename_i hne
      obtain rfl := Except.ok.inj h
      exact fun hnil => hne (List.isEmpty_iff.mpr hnil)
  · split at h <;> cases h

theorem ne_of_parseChars {cs : List Char} {id : Identifier} (h : parseChars cs = .ok id) :
    id.lid ≠ "" ∧ id.version ≠ some "" := by
  have hofList {cs : List Char} (hne : cs ≠ []) : String.ofList cs ≠ "" := fun he =>
    hne (String.ofList_eq_empty_iff.mp he)
  unfold parseChars at h
  split at h
  · split at h
    · cases h
    · rename_i hne
      obtain rfl := Except.ok.inj h
      exact ⟨hofList fun hnil => hne (List.isEmpty_iff.mpr hnil), nofun⟩
  · split at h
    · cases h
    · rename_i hne
      split at h
      · cases h
      · rename_i version hversion
        obtain rfl := Except.ok.inj h
        exact ⟨hofList fun hnil => hne (List.isEmpty_iff.mpr hnil), fun he =>
          hofList (ne_of_parseVersion hversion) (Option.some.inj he)⟩

/-- No part of a parsed identifier is empty. -/
theorem ne_of_parseVersioned {token : String} {id : Identifier}
    (h : parseVersioned token = .ok id) : id.lid ≠ "" ∧ id.version ≠ some "" := by
  unfold parseVersioned parse at h
  cases hchars : parseChars (Text.trim token).toList with
  | error e =>
    rw [hchars] at h
    cases h
  | ok id' =>
    rw [hchars] at h
    dsimp only at h
    split at h
    · obtain rfl := Except.ok.inj h
      exact ne_of_parseChars hchars
    · cases h

end Identifier

theorem Text.lower_ne {s : String} (h : s ≠ "") : lower s ≠ "" := by
  intro he
  rw [lower, String.ofList_eq_empty_iff, List.map_eq_nil_iff, String.toList_eq_nil_iff] at he
  exact h he

/-- A list of texts with a first that is not empty is not empty when joined. -/
theorem intercalate_cons_ne {s : String} (h : s ≠ "") (sep : String) (ss : List String) :
    sep.intercalate (s :: ss) ≠ "" := by
  cases ss with
  | nil => rwa [String.intercalate_singleton]
  | cons s' ss =>
    rw [String.intercalate_cons_cons, ne_eq, String.append_eq_empty_iff, String.append_eq_empty_iff]
    exact fun he => h he.1.1

/-! ## Modern labels -/

namespace Extraction.Modern

theorem ne_of_target? {id : Identifier} (h : target? t i = some id) :
    id.lid ≠ "" ∧ id.version ≠ some "" := by
  unfold target? at h
  split at h
  · cases hparse : Identifier.parseVersioned (t.value i) with
    | error e =>
      rw [hparse] at h
      cases h
    | ok id' =>
      rw [hparse] at h
      obtain rfl := Option.some.inj h
      exact Identifier.ne_of_parseVersioned hparse
  · split at h
    · rename_i hne
      obtain rfl := Option.some.inj h
      simp only [Bool.and_eq_true, decide_eq_true_eq] at hne
      exact ⟨hne.2, nofun⟩
    · cases h

/-- A reference stands at its element, and names a target and a relationship. -/
theorem wellFormed_of_mem_elementReferences {element : Nat} (he : element < t.size)
    {r : Reference} (h : r ∈ elementReferences p t source element) : r.WellFormed t source := by
  unfold elementReferences at h
  split at h
  · cases h
  · obtain ⟨id, hid, rfl⟩ := List.mem_map.mp h
    obtain ⟨i, -, hi⟩ := List.mem_filterMap.mp hid
    exact ⟨rfl, (ne_of_target? hi).1, (ne_of_target? hi).2, element, he, rfl⟩

theorem wellFormed_of_mem_kindSlots {k : LabelKind} {s : Slot} (h : s ∈ kindSlots t k) :
    s.WellFormed p t := by
  cases k with
  | bundle =>
    exact Slot.wellFormed_of_ofValues? (fun _ => Selector.of_mem_values) (Option.mem_toList.mp h)
  | collection =>
    rcases List.mem_append.mp h with h | h
    · exact Slot.wellFormed_of_ofValues? (fun _ => Selector.of_mem_values) (Option.mem_toList.mp h)
    · refine Slot.wellFormed_of_ofValues? (fun v hv => ?_) (Option.mem_toList.mp h)
      rw [List.mem_singleton.mp hv]
      split <;> decide
  | generic => cases h
  | legacy => cases h

theorem wellFormed_of_mem_slots (ht : t.PreOrder) (hd : t.dialect = .modern) {s : Slot}
    (h : s ∈ slots p t) : s.WellFormed p t := by
  have htype : t.objectType p = objectType t := by rw [Tree.objectType, hd]
  rcases List.mem_append.mp h with h | h
  · split at h
    · obtain ⟨r, hr, hs⟩ := List.mem_filterMap.mp h
      exact Rule.wellFormed_of_slot? ht (htype ▸ hr) hs
    · cases h
  · exact wellFormed_of_mem_kindSlots h

theorem wellFormed (ht : t.PreOrder) (hd : t.dialect = .modern) :
    (⟨record p t source, problems p t source⟩ : Extraction).WellFormed p t source where
  title _ := Text.isTidy_of_filter
  identifier id h := by
    obtain ⟨lid, hlid, rfl⟩ := Option.map_eq_some_iff.mp h
    exact Selector.ne_of_firstValue? hlid
  slots _ := wellFormed_of_mem_slots ht hd
  references r h := by
    obtain ⟨element, he, h⟩ := List.mem_flatMap.mp h
    exact wellFormed_of_mem_elementReferences
      (Selector.lt_size_of_mem_select ht ht.size_pos he) h
  dataClasses := nodup_eraseDups _
  problems q h := by
    obtain ⟨element, he, i, hi, hfound⟩ := exists_foundAt_of_mem_problems h
    refine ⟨i, ?_, hfound⟩
    rcases hi with rfl | hi
    · exact Selector.lt_size_of_mem_select ht ht.size_pos he
    · exact (Tree.mem_children_iff.mp hi).lt_size

end Extraction.Modern

/-! ## Legacy labels -/

namespace Extraction.Legacy

theorem mem_statements_iff {k : String} :
    i ∈ statements t k ↔ i < t.size ∧ t.name i = k ∧ (t.node i).attribute? "kind" = none := by
  simp only [statements, Tree.all, List.mem_filter, List.mem_range, Bool.and_eq_true, beq_iff_eq,
    Option.isNone_iff_eq_none]

/-- Every entry of a keyword is the value of a node and its line. -/
theorem exists_of_mem_keywordEntries {k : String} {e : String × Nat}
    (h : e ∈ keywordEntries t k) :
    ∃ i < t.size, t.value i ≠ "" ∧ e = (t.value i, (t.pos i).line) := by
  obtain ⟨i, hi, rfl⟩ := List.mem_map.mp h
  obtain ⟨hi, hne⟩ := List.mem_filter.mp hi
  exact ⟨i, (mem_statements_iff.mp hi).1, of_decide_eq_true hne, rfl⟩

theorem ne_of_keywordValue? {k v : String} (h : keywordValue? t k = some v) : v ≠ "" := by
  obtain ⟨e, he, rfl⟩ := Option.map_eq_some_iff.mp h
  obtain ⟨i, -, hne, rfl⟩ := exists_of_mem_keywordEntries (List.mem_of_mem_head? he)
  exact hne

theorem wellFormed_of_mem_slots (ht : t.PreOrder) (hd : t.dialect = .legacy) {s : Slot}
    (h : s ∈ slots p t) : s.WellFormed p t := by
  have htype : t.objectType p = p.legacy.objectType := by rw [Tree.objectType, hd]
  rcases List.mem_append.mp h with h | h
  · obtain ⟨r, hr, hs⟩ := List.mem_filterMap.mp h
    exact Rule.wellFormed_of_slot? ht (htype ▸ hr) hs
  · obtain ⟨k, hk, hs⟩ := List.mem_filterMap.mp h
    exact Slot.wellFormed_of_ofEntries? (o := .keyword k) (List.pairwise_lt_range.filter _)
      (fun i => mem_statements_iff) (List.mem_of_mem_filter hk) hs

theorem wellFormed_of_mem_references {r : Reference} (h : r ∈ references p t source) :
    r.WellFormed t source := by
  rw [references, List.mem_mergeSort] at h
  obtain ⟨k, -, h⟩ := List.mem_flatMap.mp h
  obtain ⟨e, he, rfl⟩ := List.mem_map.mp h
  obtain ⟨i, hi, hne, rfl⟩ := exists_of_mem_keywordEntries he
  exact ⟨rfl, hne, nofun, i, hi, rfl⟩

/-- The value of the first keyword that has one stays in the identifier. -/
theorem ne_of_identifier? {id : Identifier} (h : identifier? p t = some id) : id.lid ≠ "" := by
  unfold identifier? at h
  cases hparts : p.legacy.lidKeywords.filterMap (keywordValue? t) with
  | nil =>
    rw [hparts] at h
    cases h
  | cons v vs =>
    rw [hparts] at h
    obtain rfl := Option.some.inj h
    have hv : v ∈ p.legacy.lidKeywords.filterMap (keywordValue? t) := hparts ▸ List.mem_cons_self
    obtain ⟨k, -, hk⟩ := List.mem_filterMap.mp hv
    have hlower : Text.lower v ≠ "" := Text.lower_ne (ne_of_keywordValue? hk)
    exact fun he => intercalate_cons_ne hlower _ _ (String.append_eq_empty_iff.mp he).2

theorem wellFormed (ht : t.PreOrder) (hd : t.dialect = .legacy) :
    (⟨record p t source, []⟩ : Extraction).WellFormed p t source where
  title _ := Text.isTidy_of_filter
  identifier _ := ne_of_identifier?
  slots _ := wellFormed_of_mem_slots ht hd
  references _ := wellFormed_of_mem_references
  dataClasses := nodup_eraseDups _
  problems _ h := nomatch h

end Extraction.Legacy

namespace Label.Tree

/-- The record of every label is well formed, and so are the problems met while making it. -/
theorem wellFormed_extract (ht : t.PreOrder) (p : Policy) (source : String) :
    (t.extract p source).WellFormed p t source := by
  unfold extract
  cases hd : t.dialect with
  | modern => exact Extraction.Modern.wellFormed ht hd
  | legacy => exact Extraction.Legacy.wellFormed ht hd

/-- A label whose title goes over two lines. -/
def observerLabel : String :=
  "PDS_VERSION_ID = PDS3\nMISSION_NAME = \"MARS\n  OBSERVER\"\nTARGET_NAME = MARS\nEND\n"

/-- A policy that makes a slot of the title, and a reference and the identifier of the target. -/
def observerPolicy : Policy where
  objectTypes := []
  requiredFields := []
  referenceTypes := none
  nonPrimaryMembers := []
  namespaces := []
  legacy := {
    objectType := "Catalog"
    lidPrefix := "urn:"
    lidKeywords := ["TARGET_NAME"]
    titleKeyword := "MISSION_NAME"
    version := ""
    referenceKeywords := [("TARGET_NAME", "target")]
    requiredFields := [] }
  slotKeywords := ["MISSION_NAME"]

/-- What is extracted from it. -/
def observerExtraction : Extraction where
  record := {
    source := "a.cat"
    identifier := some ⟨"urn:mars", some ""⟩
    title := some "MARS OBSERVER"
    objectType := "Catalog"
    dataClasses := []
    references := [⟨⟨"MARS", none⟩, "target", "a.cat", some 4⟩]
    slots := [⟨"MISSION_NAME", ["MARS\n  OBSERVER"], none, [2]⟩] }
  problems := []

set_option maxRecDepth 100000 in
/-- The title is tidied in the record, and only trimmed in the slot. -/
theorem wellFormed_extract_observer : ∃ t : Tree, Tree.ofText .legacy observerLabel = .ok t ∧
    t.PreOrder ∧ t.extract observerPolicy "a.cat" = observerExtraction ∧
    observerExtraction.WellFormed observerPolicy t "a.cat" := by
  have hread : (Tree.ofText .legacy observerLabel).toOption.map
      (fun t => t.extract observerPolicy "a.cat") = some observerExtraction := by decide +kernel
  cases ht : Tree.ofText .legacy observerLabel with
  | error e =>
    rw [ht] at hread
    cases hread
  | ok t =>
    rw [ht] at hread
    have hextract : t.extract observerPolicy "a.cat" = observerExtraction := Option.some.inj hread
    have hpre := preOrder_of_ofText ht
    exact ⟨t, rfl, hpre, hextract, hextract ▸ wellFormed_extract hpre observerPolicy "a.cat"⟩

end Label.Tree

end ArchiveLabels
