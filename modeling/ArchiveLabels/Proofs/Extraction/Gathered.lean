import ArchiveLabels.Proofs.Extraction.WellFormed
import ArchiveLabels.Proofs.Json.Tables
import ArchiveLabels.Proofs.Odl.Positions

/-!
# What a legacy record gathers from the keywords

The identifier of a legacy label, its associations and the slots that others refer by are made from
the values of keywords, wherever in the label they are given. Which nodes give a keyword a value is
told here without the attribute by which blocks are recognised (`Tree.Occurrences`), and
`Record.Gathers` says what the record has of them : of an association, a `Mention` is the entry of
the table and the node that it comes from. The record of every legacy label has each value of a
keyword once (`Odl.gathers_extract`).

Associations are collected keyword by keyword and then sorted by line. Those of one line stay in
order because the sorting is stable (`filter_mergeSort`).
-/

namespace ArchiveLabels

open Label

/-! ## Stable sorting -/

section

variable {α : Type} (f : α → Nat) (l : List α)

/-- Sorting leaves the elements of one rank in the order they had. -/
theorem filter_mergeSort (n : Nat) :
    (l.mergeSort fun a b => f a ≤ f b).filter (fun a => f a = n) = l.filter fun a => f a = n := by
  have hrank : (l.filter fun a => f a = n).Pairwise fun a b => decide (f a ≤ f b) = true := by
    refine List.Pairwise.imp_of_mem (R := fun _ _ => True) (fun {a b} ha hb _ => ?_)
      (List.pairwise_of_forall fun _ _ => trivial)
    simp only [List.mem_filter, decide_eq_true_eq] at ha hb
    simp [ha.2, hb.2]
  have hsub := (List.sublist_mergeSort (fun a b c => by simpa using Nat.le_trans)
    (fun a b => by simpa using Nat.le_total (f a) (f b)) hrank List.filter_sublist).filter
    fun a => f a = n
  rw [List.filter_filter] at hsub
  simp only [Bool.and_self] at hsub
  exact (hsub.eq_of_length ((List.mergeSort_perm l _).filter _).length_eq.symm).symm

/-- Elements are sorted by rank, and those of one rank stand as they did. -/
theorem pairwise_mergeSort_stable {R : α → α → Prop} (h : l.Pairwise R) :
    (l.mergeSort fun a b => f a ≤ f b).Pairwise fun a b => f a < f b ∨ f a = f b ∧ R a b := by
  refine List.pairwise_iff_forall_sublist.mpr fun {a b} hab => ?_
  have hsorted : (l.mergeSort fun a b => f a ≤ f b).Pairwise fun a b => decide (f a ≤ f b) = true :=
    List.pairwise_mergeSort (fun a b c => by simpa using Nat.le_trans)
      (fun a b => by simpa using Nat.le_total (f a) (f b)) l
  have hle : f a ≤ f b := of_decide_eq_true (List.pairwise_iff_forall_sublist.mp hsorted hab)
  rcases Nat.lt_or_eq_of_le hle with hlt | heq
  · exact .inl hlt
  · refine .inr ⟨heq, List.pairwise_iff_forall_sublist.mp h ?_⟩
    have hfilter := hab.filter fun x => f x = f a
    rw [filter_mergeSort, List.filter_cons_of_pos (by simp),
      List.filter_cons_of_pos (by simp [heq])] at hfilter
    exact hfilter.trans List.filter_sublist

end

variable {c : Config} {p : Policy} {t : Tree} {text source k : String} {i : Nat}

/-! ## The nodes that give a keyword a value -/

namespace Label.Tree

/-- Node `i` is that of a block. -/
def IsBlock (t : Tree) (i : Nat) : Prop :=
  ∃ (s : Odl.Statement) (kind : Odl.BlockKind) (name : String) (parent : Nat),
    t.node i = s.blockNode kind name parent

/-- The nodes are those that give the keyword a value, in document order. -/
structure Occurrences (t : Tree) (k : String) (nodes : List Nat) : Prop where
  inOrder : nodes.Pairwise (· < ·)
  mem_iff : ∀ i, i ∈ nodes ↔ i < t.size ∧ t.name i = k ∧ ¬t.IsBlock i ∧ t.value i ≠ ""

end Label.Tree

/-- A value by which a label refers to another product. -/
structure Mention where
  /-- The keyword that has the value. -/
  keyword : String
  /-- What the table calls the relationship. -/
  relationship : String
  /-- The node of the value. -/
  node : Nat

namespace Mention

/-- The line that a value is in. -/
def line (t : Tree) (m : Mention) : Nat := (t.pos m.node).line

/-- The association of the label with the product that a value names. -/
def reference (t : Tree) (source : String) (m : Mention) : Reference :=
  ⟨⟨t.value m.node, none⟩, m.relationship, source, some (m.line t)⟩

/-- In the table the keyword of `m` comes first, or it is the same and the node of `m` does. -/
def Ahead (m m' : Mention) : Prop :=
  m.keyword < m'.keyword ∨ m.keyword = m'.keyword ∧ m.node < m'.node

/-- The line of `m` comes first, or it is the same and `m` is ahead of the other. -/
def Before (t : Tree) (m m' : Mention) : Prop :=
  m.line t < m'.line t ∨ m.line t = m'.line t ∧ m.Ahead m'

end Mention

/-- No rule for legacy labels fills a slot of the name `k`. -/
def Policy.LeavesOpen (p : Policy) (t : Tree) (k : String) : Prop :=
  ∀ r ∈ p.rulesFor p.legacy.objectType, ∀ s, r.slot? t = some s → s.name ≠ k

/-- The record of a legacy label has the values that the nodes `nodes k` give each keyword `k`. -/
structure Record.Gathers (r : Record) (c : Config) (p : Policy) (t : Tree) (source : String)
    (nodes : String → List Nat) : Prop where
  /-- All values of a keyword that others refer by are in its slot, with their lines. -/
  entries : ∀ k ∈ c.categories.map Category.identifier, p.LeavesOpen t k →
    r.slotEntries k = (nodes k).map fun i => (t.value i, some (t.pos i).line)
  /-- It has one slot, or none if it has no values. -/
  slots : ∀ k ∈ c.categories.map Category.identifier, p.LeavesOpen t k →
    (r.slots.filter fun s => s.name == k).length = if nodes k = [] then 0 else 1
  /-- Each value of a keyword that names other products is an association, once for each entry of
  the table, by line, keyword and place in the document. -/
  references : ∃ ms : List Mention, ms.Pairwise (Mention.Before t) ∧
    (∀ m, m ∈ ms ↔
      (m.keyword, m.relationship) ∈ c.legacy.referenceKeywords ∧ m.node ∈ nodes m.keyword) ∧
    r.references = ms.map (Mention.reference t source)
  /-- There is an identifier if one of the keywords for it has a value. -/
  identifier_eq_none_iff : r.identifier = none ↔ ∀ k ∈ c.legacy.lidKeywords, nodes k = []
  /-- The identifier is made from the first value of each of them. -/
  identifier : ∀ id, r.identifier = some id →
    id.lid = c.legacy.lidPrefix ++ ":".intercalate
      ((c.legacy.lidKeywords.filterMap fun k => (nodes k).head?).map fun i =>
        Text.lower (t.value i)) ∧
    id.version = some c.legacy.version

/-! ## Slots of entries -/

namespace Slot

theorem flatMap_entries_ofEntries? (k : String) (es : List (String × Nat)) :
    (ofEntries? k es).toList.flatMap entries = es.map fun e => (e.1, some e.2) := by
  have hzip : zipLines (es.map Prod.fst) (es.map Prod.snd) =
      es.map fun e => (e.1, some e.2) := by
    induction es with
    | nil => rfl
    | cons e es ih => rw [List.map_cons, List.map_cons, zipLines, ih, List.map_cons]
  unfold ofEntries?
  split
  · rename_i hnil
    rw [List.isEmpty_iff.mp hnil]
    rfl
  · rw [Option.toList_some, List.flatMap_singleton, entries, hzip]

theorem length_ofEntries? (k : String) (es : List (String × Nat)) :
    (ofEntries? k es).toList.length = if es = [] then 0 else 1 := by
  cases es <;> rfl

theorem name_of_ofEntries? {es : List (String × Nat)} {s : Slot}
    (h : ofEntries? k es = some s) : s.name = k := by
  unfold ofEntries? at h
  split at h
  · cases h
  · obtain rfl := Option.some.inj h
    rfl

end Slot

/-! ## Blocks and values -/

namespace Odl

variable {ss : List Statement}

theorem attribute?_valueNode (s : Statement) (parent : Nat) (v : Scalar) :
    (s.valueNode parent v).attribute? "kind" = none := by
  obtain ⟨text, _ | unit⟩ := v <;> rfl

/-- The attribute tells the nodes of blocks from those of values. -/
theorem IsTreeOf.attribute?_eq_none_iff (h : IsTreeOf ss t) (hi : i < t.size) :
    (t.node i).attribute? "kind" = none ↔ ¬t.IsBlock i := by
  constructor
  · rintro hnone ⟨s, kind, name, parent, hblock⟩
    rw [hblock] at hnone
    cases hnone
  · intro hblock
    rcases Nat.eq_zero_or_pos i with rfl | hpos
    · rw [h.root]
      rfl
    · obtain ⟨before, s, behind, parent, -, -, -, hnode⟩ := h.exists_statement hpos hi
      unfold Statement.nodes at hnode
      split at hnode
      · rename_i kind name _ _
        exact absurd ⟨s, kind, name.text, parent, List.mem_singleton.mp hnode⟩ hblock
      · rw [List.mem_singleton.mp hnode, attribute?_valueNode]
      · obtain ⟨v, -, hv⟩ := List.mem_map.mp hnode
        rw [← hv, attribute?_valueNode]
      · cases hnode

end Odl

namespace Extraction.Legacy

/-- The nodes that give a keyword a value. -/
def keywordNodes (t : Tree) (k : String) : List Nat :=
  (statements t k).filter fun i => t.value i ≠ ""

/-- The entries of a keyword are the values and lines of its nodes. -/
theorem keywordEntries_eq (t : Tree) (k : String) :
    keywordEntries t k = (keywordNodes t k).map fun i => (t.value i, (t.pos i).line) :=
  rfl

theorem keywordValue?_eq (t : Tree) (k : String) :
    keywordValue? t k = (keywordNodes t k).head?.map t.value := by
  rw [keywordValue?, keywordEntries_eq, List.head?_map, Option.map_map]
  rfl

/-- The nodes of a keyword are its occurrences in the statements, in their order. -/
theorem occurrences_keywordNodes {ss : List Odl.Statement} (h : Odl.IsTreeOf ss t) (k : String) :
    t.Occurrences k (keywordNodes t k) where
  inOrder := (List.pairwise_lt_range.filter _).filter _
  mem_iff i := by
    rw [keywordNodes, List.mem_filter, mem_statements_iff, decide_eq_true_eq]
    constructor
    · rintro ⟨⟨hi, hname, hkind⟩, hvalue⟩
      exact ⟨hi, hname, (h.attribute?_eq_none_iff hi).mp hkind, hvalue⟩
    · rintro ⟨hi, hname, hblock, hvalue⟩
      exact ⟨⟨hi, hname, (h.attribute?_eq_none_iff hi).mpr hblock⟩, hvalue⟩

/-! ## Slots -/

/-- Of the slots made of the keywords, that of the name `k` is the one made of `k`. -/
theorem filter_filterMap_ofEntries? {ks : List String} (hks : ks.Nodup) (hk : k ∈ ks)
    (es : String → List (String × Nat)) :
    (ks.filterMap fun k => Slot.ofEntries? k (es k)).filter (fun s => s.name == k) =
      (Slot.ofEntries? k (es k)).toList := by
  have hone : ks.filter (· == k) = [k] := by
    rw [List.filter_beq, List.count_eq_one_of_mem hks hk]
    rfl
  have hname (k' : String) : (Slot.ofEntries? k' (es k')).filter (fun s => s.name == k) =
      if k' == k then Slot.ofEntries? k' (es k') else none := by
    cases h : Slot.ofEntries? k' (es k') with
    | none => simp
    | some s => simp [Option.filter_some, Slot.name_of_ofEntries? h]
  simp only [List.filter_filterMap, hname]
  rw [← List.filterMap_filter, hone]
  cases h : Slot.ofEntries? k (es k) <;> simp [h]

/-- The slot of a keyword is made of all its values, if no rule fills one of its name. -/
theorem filter_slots (hp : p.slotKeywords.Nodup) (hk : k ∈ p.slotKeywords)
    (hopen : p.LeavesOpen t k) :
    (slots p t).filter (fun s => s.name == k) =
      (Slot.ofEntries? k (keywordEntries t k)).toList := by
  have hruled : ∀ s ∈ (p.rulesFor p.legacy.objectType).filterMap (fun r => r.slot? t),
      s.name ≠ k := by
    intro s hs
    obtain ⟨r, hr, hslot⟩ := List.mem_filterMap.mp hs
    exact hopen r hr s hslot
  have hfree : (!((p.rulesFor p.legacy.objectType).filterMap fun r => r.slot? t).any
      fun s => s.name == k) = true := by
    rw [Bool.not_eq_true', List.any_eq_false]
    exact fun s hs he => hruled s hs (beq_iff_eq.mp he)
  rw [slots, List.filter_append, List.filter_eq_nil_iff.mpr (by simpa using hruled),
    List.nil_append, keywordSlots]
  exact filter_filterMap_ofEntries? (hp.filter _) (List.mem_filter.mpr ⟨hk, hfree⟩) _

/-! ## Associations -/

/-- The mentions of other products, keyword by keyword. -/
def mentions (p : Policy) (t : Tree) : List Mention :=
  p.legacy.referenceKeywords.flatMap fun (keyword, relationship) =>
    (keywordNodes t keyword).map fun i => ⟨keyword, relationship, i⟩

/-- A mention is a node of a reference keyword. -/
theorem mem_mentions_iff {m : Mention} : m ∈ mentions p t ↔
    (m.keyword, m.relationship) ∈ p.legacy.referenceKeywords ∧
      m.node ∈ keywordNodes t m.keyword := by
  simp only [mentions, List.mem_flatMap, List.mem_map, Prod.exists]
  constructor
  · rintro ⟨keyword, relationship, hentry, i, hi, rfl⟩
    exact ⟨hentry, hi⟩
  · rintro ⟨hentry, hi⟩
    exact ⟨m.keyword, m.relationship, hentry, m.node, hi, rfl⟩

/-- Mentions are listed keyword by keyword, and in document order within each. -/
theorem pairwise_mentions (h : Table.Ascending id p.legacy.referenceKeywords) :
    (mentions p t).Pairwise Mention.Ahead := by
  refine List.pairwise_flatMap.mpr ⟨fun e _ => ?_, h.imp fun {e e'} hlt m hm m' hm' => ?_⟩
  · exact List.pairwise_map.mpr
      (((List.pairwise_lt_range.filter _).filter _).imp fun hlt => .inr ⟨rfl, hlt⟩)
  · obtain ⟨_, -, rfl⟩ := List.mem_map.mp hm
    obtain ⟨_, -, rfl⟩ := List.mem_map.mp hm'
    exact .inl hlt

/-- The references are the mentions sorted by line, where those of one line keep their order. -/
theorem references_eq (p : Policy) (t : Tree) (source : String) : references p t source =
    ((mentions p t).mergeSort fun m m' => m.line t ≤ m'.line t).map
      (Mention.reference t source) := by
  have hcollected : (p.legacy.referenceKeywords.flatMap fun (keyword, relationship) =>
      keywordReferences t source keyword relationship) =
      (mentions p t).map (Mention.reference t source) := by
    simp only [mentions, keywordReferences, keywordEntries_eq, List.map_flatMap, List.map_map]
    rfl
  rw [references, hcollected, List.map_mergeSort]
  exact fun _ _ _ _ => rfl

/-- Associations are in the order of their lines, those of one line by keyword and node. -/
theorem exists_mentions (h : Table.Ascending id p.legacy.referenceKeywords) (t : Tree)
    (source : String) :
    ∃ ms : List Mention, ms.Pairwise (Mention.Before t) ∧
      (∀ m, m ∈ ms ↔ (m.keyword, m.relationship) ∈ p.legacy.referenceKeywords ∧
        m.node ∈ keywordNodes t m.keyword) ∧
      references p t source = ms.map (Mention.reference t source) :=
  ⟨_, pairwise_mergeSort_stable (Mention.line t) (mentions p t) (pairwise_mentions h),
    fun _ => List.mem_mergeSort.trans mem_mentions_iff, references_eq p t source⟩

/-! ## The identifier -/

theorem identifierParts_eq (p : Policy) (t : Tree) :
    p.legacy.lidKeywords.filterMap (keywordValue? t) =
      (p.legacy.lidKeywords.filterMap fun k => (keywordNodes t k).head?).map t.value := by
  rw [List.map_filterMap, funext (keywordValue?_eq t)]

/-- There is no identifier exactly when no keyword of one occurs. -/
theorem identifier?_eq_none_iff :
    identifier? p t = none ↔ ∀ k ∈ p.legacy.lidKeywords, keywordNodes t k = [] := by
  have hparts : p.legacy.lidKeywords.filterMap (keywordValue? t) = [] ↔
      ∀ k ∈ p.legacy.lidKeywords, keywordNodes t k = [] := by
    rw [identifierParts_eq, List.map_eq_nil_iff, List.filterMap_eq_nil_iff]
    simp only [List.head?_eq_none_iff]
  rw [← hparts, identifier?]
  split
  · rename_i hnil
    exact iff_of_true rfl hnil
  · rename_i hne
    exact iff_of_false nofun hne

/-- An identifier is the prefix and the lower-cased values of its keywords, joined by colons. -/
theorem eq_of_identifier? {id : Identifier} (h : identifier? p t = some id) :
    id.lid = p.legacy.lidPrefix ++ ":".intercalate
      ((p.legacy.lidKeywords.filterMap fun k => (keywordNodes t k).head?).map fun i =>
        Text.lower (t.value i)) ∧
    id.version = some p.legacy.version := by
  unfold identifier? at h
  split at h
  · cases h
  · obtain rfl := Option.some.inj h
    rw [identifierParts_eq, List.map_map]
    exact ⟨rfl, rfl⟩

end Extraction.Legacy

/-! ## Records -/

theorem Policy.of_compile (h : Policy.compile c = .ok p) :
    p.legacy = c.legacy ∧ p.slotKeywords = (c.categories.map Category.identifier).eraseDups := by
  obtain ⟨types, -, h⟩ := Xml.exists_of_bind_eq_ok h
  obtain ⟨members, -, h⟩ := Xml.exists_of_bind_eq_ok h
  cases h
  exact ⟨rfl, rfl⟩

namespace Odl

/-- **Each value of a keyword is gathered once.** For every text that is a legacy label and all
settings, the record has the values of a keyword in its slot, if no rule fills one of that name, an
association for each entry of the table and each value of its keyword, and the identifier that the
first values make up. -/
theorem gathers_extract (hc : Policy.compile c = .ok p)
    (htable : Table.Ascending id c.legacy.referenceKeywords) (ht : readLabel text = .ok t)
    (source : String) :
    ∃ nodes : String → List Nat, (∀ k, t.Occurrences k (nodes k)) ∧
      (t.extract p source).record.Gathers c p t source nodes := by
  obtain ⟨ss, -, hadd⟩ := readLabel_eq_ok_iff.mp ht
  have htree : IsTreeOf ss t := (Nesting.builds_empty.addAll hadd).isTreeOf
  obtain ⟨hlegacy, hkeywords⟩ := Policy.of_compile hc
  have hfilter (k : String) (hk : k ∈ c.categories.map Category.identifier)
      (hopen : p.LeavesOpen t k) :=
    Extraction.Legacy.filter_slots (hkeywords ▸ nodup_eraseDups _)
      (hkeywords ▸ List.mem_eraseDups.mpr hk) hopen
  refine ⟨Extraction.Legacy.keywordNodes t, Extraction.Legacy.occurrences_keywordNodes htree, ?_⟩
  rw [Tree.extract, htree.dialect]
  constructor
  case entries =>
    intro k hk hopen
    rw [Record.slotEntries, Extraction.Legacy.record, hfilter k hk hopen,
      Slot.flatMap_entries_ofEntries?, Extraction.Legacy.keywordEntries_eq, List.map_map]
    rfl
  case slots =>
    intro k hk hopen
    rw [Extraction.Legacy.record, hfilter k hk hopen, Slot.length_ofEntries?,
      Extraction.Legacy.keywordEntries_eq]
    simp only [List.map_eq_nil_iff]
  case references => exact hlegacy ▸ Extraction.Legacy.exists_mentions (hlegacy ▸ htable) t source
  case identifier_eq_none_iff => exact hlegacy ▸ Extraction.Legacy.identifier?_eq_none_iff
  case identifier => exact fun id h => hlegacy ▸ Extraction.Legacy.eq_of_identifier? h

/-- A label with a block of the name of a keyword, and with values of two keywords in one line. -/
def instrumentLabel : String :=
  "OBJECT = INSTRUMENT_ID\n  TARGET_NAME = \"Mars\" INSTRUMENT_ID = \"TES\"\n" ++
  "  TARGET_NAME = \" \"\nEND_OBJECT\nINSTRUMENT_ID = MOLA\nMISSION_NAME = MGS\nEND\n"

/-- Settings with two keywords that name other products, and a rule that fills the slot of one
keyword that others refer by. -/
def instrumentSettings : Config :=
  { Config.default with
    policy := { Config.default.policy with
      objectTypes := [⟨"Product_Proxy_PDS3", [⟨"//MISSION_NAME", none, none⟩]⟩] }
    legacy := { Config.default.legacy with
      lidKeywords := ["DATA_SET_ID", "MISSION_NAME", "INSTRUMENT_ID"]
      referenceKeywords := [("INSTRUMENT_ID", "instrument"), ("TARGET_NAME", "target")] }
    categories := [⟨"INSTRUMENT", "INSTRUMENT_ID"⟩, ⟨"MISSION", "MISSION_NAME"⟩,
      ⟨"PERSONNEL", "PDS_USER_ID"⟩, ⟨"CAMERA", "INSTRUMENT_ID"⟩] }

/-- The nodes of the label. -/
def instrumentTree : Tree where
  dialect := .legacy
  nodes := #[⟨"LABEL", none, [], none, ⟨1, 1⟩, none⟩,
    ⟨"INSTRUMENT_ID", none, [("kind", "OBJECT")], none, ⟨1, 1⟩, some 0⟩,
    ⟨"TARGET_NAME", none, [], some "Mars", ⟨2, 3⟩, some 1⟩,
    ⟨"INSTRUMENT_ID", none, [], some "TES", ⟨2, 24⟩, some 1⟩,
    ⟨"TARGET_NAME", none, [], some " ", ⟨3, 3⟩, some 1⟩,
    ⟨"INSTRUMENT_ID", none, [], some "MOLA", ⟨5, 1⟩, some 0⟩,
    ⟨"MISSION_NAME", none, [], some "MGS", ⟨6, 1⟩, some 0⟩]

/-- The policy that the settings make up. -/
def instrumentPolicy : Policy where
  objectTypes := [⟨"Product_Proxy_PDS3", [⟨⟨"//MISSION_NAME",
    [⟨true, [Policy.descendantStep "MISSION_NAME"]⟩]⟩, none, none⟩]⟩]
  requiredFields := instrumentSettings.policy.requiredFields
  referenceTypes := none
  nonPrimaryMembers := []
  namespaces := instrumentSettings.policy.namespaces
  legacy := instrumentSettings.legacy
  slotKeywords := ["INSTRUMENT_ID", "MISSION_NAME", "PDS_USER_ID"]

/-- What is gathered from the label. -/
def instrumentRecord : Record where
  source := "a.lbl"
  identifier := some ⟨"urn:nasa:pds:mgs:tes", some "1.0"⟩
  title := none
  objectType := "Product_Proxy_PDS3"
  dataClasses := ["INSTRUMENT_ID"]
  references := [⟨⟨"TES", none⟩, "instrument", "a.lbl", some 2⟩,
    ⟨⟨"Mars", none⟩, "target", "a.lbl", some 2⟩, ⟨⟨"MOLA", none⟩, "instrument", "a.lbl", some 5⟩]
  slots := [⟨"MISSION_NAME", ["MGS"], none, [6]⟩,
    ⟨"INSTRUMENT_ID", ["TES", "MOLA"], none, [2, 5]⟩]

set_option maxRecDepth 100000 in
/-- The block is no value of the keyword whose name it has, and of the two values in line 2 the one
of the first keyword comes first. -/
theorem gathers_extract_instrument : Policy.compile instrumentSettings = .ok instrumentPolicy ∧
    Table.Ascending id instrumentSettings.legacy.referenceKeywords ∧
    readLabel instrumentLabel = .ok instrumentTree ∧
    (instrumentTree.extract instrumentPolicy "a.lbl").record = instrumentRecord ∧
    ∃ nodes : String → List Nat, (∀ k, instrumentTree.Occurrences k (nodes k)) ∧
      instrumentRecord.Gathers instrumentSettings instrumentPolicy instrumentTree "a.lbl"
        nodes := by
  have hc : Policy.compile instrumentSettings = .ok instrumentPolicy := by decide +kernel
  have htable : Table.Ascending id instrumentSettings.legacy.referenceKeywords := by
    simp only [Table.Ascending, instrumentSettings, List.pairwise_pair, id]
    decide +kernel
  have ht : readLabel instrumentLabel = .ok instrumentTree := by decide +kernel
  have hrecord : (instrumentTree.extract instrumentPolicy "a.lbl").record = instrumentRecord := by
    cbv
  exact ⟨hc, htable, ht, hrecord, hrecord ▸ gathers_extract hc htable ht "a.lbl"⟩

end Odl

end ArchiveLabels
