import ArchiveLabels.Extraction.Extract
import ArchiveLabels.Label.Reading
import ArchiveLabels.Proofs.Selector.Selection

/-!
# No association is lost in silence

An association element names products and says how the product of the label is related to them, each
in children of its own, of any number and in any order. Extraction collects the products, the
relationship and the problems apart from each other. Here they are told child by child : each child
makes one remark (`Extraction.Modern.Says`), and what the element comes to is told by the remarks of
all its children (`Extraction.Modern.ComesTo`).

`Extraction.Modern.extract_associations` : the associations of a label and the problems with them
are what its association elements come to, one after the other in document order, and each of these
gives an association or a problem.
-/

namespace ArchiveLabels.Extraction.Modern

open Label

variable {p : Policy} {t : Tree} {source : String} {i element : Nat}

/-! ## Remarks -/

/-- Elements of the name say how products are related. -/
def IsAssociation (name : String) : Prop :=
  (∃ front, name = front ++ "Member_Entry") ∨ name = "Internal_Reference" ∨
    name = "Source_Product_Internal"

/-- What a child of an association element says. -/
structure Remark where
  /-- The product that it names. -/
  target : Option Identifier
  /-- The relationship that it declares. -/
  relationship : Option String
  /-- The problem with it. -/
  problem : Option Problem

/-- A child makes a remark. -/
inductive Says (p : Policy) (t : Tree) (source : String) (i : Nat) : Remark → Prop
  | version {id : Identifier} (hname : t.name i = "lidvid_reference")
    (hid : Identifier.parseVersioned (t.value i) = .ok id) : Says p t source i ⟨id, none, none⟩
  /-- What should name a version does not. -/
  | noVersion {e : InvalidIdentifier} (hname : t.name i = "lidvid_reference")
    (he : Identifier.parseVersioned (t.value i) = .error e) :
    Says p t source i ⟨none, none, t.problemAt i .malformedReference
      ("Expected a LID-VID reference, but found this: " ++ t.value i) source⟩
  | product (hname : t.name i = "lid_reference") (hvalue : t.value i ≠ "") :
    Says p t source i ⟨some ⟨t.value i, none⟩, none, none⟩
  /-- What should name a product is empty. -/
  | noProduct (hname : t.name i = "lid_reference") (hvalue : t.value i = "") :
    Says p t source i ⟨none, none, t.problemAt i .malformedReference
      "Found an empty 'lid_reference' element." source⟩
  /-- There is no table of relationships. -/
  | declared (hname : t.name i = "reference_type") (hvalue : t.value i ≠ "")
    (htable : p.referenceTypes = none) : Says p t source i ⟨none, t.value i, none⟩
  /-- The table has a name for the relationship. -/
  | mapped {table : Table String String} {name : String} (hname : t.name i = "reference_type")
    (hvalue : t.value i ≠ "") (htable : p.referenceTypes = some table)
    (hentry : table.lookup (t.value i) = some name) : Says p t source i ⟨none, name, none⟩
  /-- The table has none. -/
  | unmapped {table : Table String String} (hname : t.name i = "reference_type")
    (hvalue : t.value i ≠ "") (htable : p.referenceTypes = some table)
    (hentry : table.lookup (t.value i) = none) :
    Says p t source i ⟨none, t.value i, t.problemAt i .unmappedReferenceType
      ("No mapping found for reference type '" ++ t.value i ++ "'.") source⟩
  /-- The child has nothing to say. -/
  | nothing (hversion : t.name i ≠ "lidvid_reference") (hproduct : t.name i ≠ "lid_reference")
    (htype : t.name i = "reference_type" → t.value i = "") : Says p t source i ⟨none, none, none⟩

/-- What an association element comes to, given the remarks of its children : associations and
problems. -/
inductive ComesTo (t : Tree) (source : String) (element : Nat) (remarks : List Remark) :
    List Reference → List Problem → Prop
  /-- All products that are named are related in the way that is declared last. -/
  | related {relationship : String} (htarget : ∃ r ∈ remarks, r.target ≠ none)
    (hlast : (remarks.filterMap Remark.relationship).getLast? = some relationship) :
    ComesTo t source element remarks
      ((remarks.filterMap Remark.target).map fun target =>
        ⟨target, relationship, source, some (t.pos element).line⟩)
      (remarks.filterMap Remark.problem)
  /-- Products are named, but it is not said how they are related. -/
  | unrelated (htarget : ∃ r ∈ remarks, r.target ≠ none)
    (hnone : ∀ r ∈ remarks, r.relationship = none) :
    ComesTo t source element remarks []
      (remarks.filterMap Remark.problem ++ [t.problemAt element .missingReferenceType
        "Could not find 'reference_type' element." source])
  /-- No product is named, and the problem with it is known. -/
  | malformed (hnone : ∀ r ∈ remarks, r.target = none)
    (hknown : ∃ r ∈ remarks, ∃ q ∈ r.problem, q.kind = .malformedReference) :
    ComesTo t source element remarks [] (remarks.filterMap Remark.problem)
  /-- No product is named, well or badly. -/
  | untold (hnone : ∀ r ∈ remarks, r.target = none)
    (hknown : ∀ r ∈ remarks, ∀ q ∈ r.problem, q.kind ≠ .malformedReference) :
    ComesTo t source element remarks []
      (remarks.filterMap Remark.problem ++ [t.problemAt element .missingReferenceTarget
        "Missing one or more 'lidvid_reference' or 'lid_reference' elements." source])

/-- An association element gives an association or a problem. -/
theorem ComesTo.ne_nil {remarks : List Remark} {rs : List Reference} {qs : List Problem}
    (h : ComesTo t source element remarks rs qs) : rs ≠ [] ∨ qs ≠ [] := by
  cases h with
  | related htarget =>
    obtain ⟨r, hr, hne⟩ := htarget
    obtain ⟨id, hid⟩ := Option.ne_none_iff_exists'.mp hne
    exact .inl fun hnil => List.not_mem_nil
      (List.map_eq_nil_iff.mp hnil ▸ List.mem_filterMap.mpr ⟨r, hr, hid⟩)
  | unrelated => exact .inr (by simp)
  | malformed _ hknown =>
    obtain ⟨r, hr, q, hq, -⟩ := hknown
    exact .inr (List.ne_nil_of_mem (List.mem_filterMap.mpr ⟨r, hr, hq⟩))
  | untold => exact .inr (by simp)

/-! ## What is collected, child by child -/

/-- What is collected from one child. -/
def remark (p : Policy) (t : Tree) (source : String) (i : Nat) : Remark where
  target := target? t i
  relationship := if isRelationship t i then some (relationshipName p (t.value i)) else none
  problem := (malformed? t source i).or (unmapped? p t source i)

/-- A child of an association element says one thing only. -/
theorem remark_eq_of_said {r : Remark} (h : Says p t source i r) : remark p t source i = r := by
  cases h with
  | version hname hid =>
    simp [remark, target?, malformed?, unmapped?, isRelationship, hname, hid, Except.toOption]
  | noVersion hname he =>
    simp [remark, target?, malformed?, unmapped?, isRelationship, hname, he, Except.toOption]
  | product hname hvalue =>
    simp [remark, target?, malformed?, unmapped?, isRelationship, hname, hvalue]
  | noProduct hname hvalue =>
    simp [remark, target?, malformed?, unmapped?, isRelationship, hname, hvalue]
  | declared hname hvalue htable =>
    simp [remark, target?, malformed?, unmapped?, isRelationship, relationshipName, Policy.mapType,
      hname, hvalue, htable]
  | mapped hname hvalue htable hentry =>
    simp [remark, target?, malformed?, unmapped?, isRelationship, relationshipName, Policy.mapType,
      hname, hvalue, htable, hentry]
  | unmapped hname hvalue htable hentry =>
    simp [remark, target?, malformed?, unmapped?, isRelationship, relationshipName, Policy.mapType,
      hname, hvalue, htable, hentry]
  | nothing hversion hproduct htype =>
    have his : isRelationship t i = false := by simpa [isRelationship] using htype
    simp [remark, target?, malformed?, unmapped?, hversion, hproduct, his]

/-- Each child makes a remark. -/
theorem exists_remark (p : Policy) (t : Tree) (source : String) (i : Nat) :
    ∃ r, Says p t source i r := by
  by_cases hversion : t.name i = "lidvid_reference"
  · cases hparse : Identifier.parseVersioned (t.value i) with
    | ok id => exact ⟨_, .version hversion hparse⟩
    | error e => exact ⟨_, .noVersion hversion hparse⟩
  by_cases hproduct : t.name i = "lid_reference"
  · by_cases hvalue : t.value i = ""
    · exact ⟨_, .noProduct hproduct hvalue⟩
    · exact ⟨_, .product hproduct hvalue⟩
  by_cases htype : t.name i = "reference_type" → t.value i = ""
  · exact ⟨_, .nothing hversion hproduct htype⟩
  obtain ⟨hname, hvalue⟩ := Classical.not_imp.mp htype
  cases htable : p.referenceTypes with
  | none => exact ⟨_, .declared hname hvalue htable⟩
  | some table =>
    cases hentry : table.lookup (t.value i) with
    | some name => exact ⟨_, .mapped hname hvalue htable hentry⟩
    | none => exact ⟨_, .unmapped hname hvalue htable hentry⟩

/-- What is read from a child is what it says. -/
theorem says_remark (p : Policy) (t : Tree) (source : String) (i : Nat) :
    Says p t source i (remark p t source i) := by
  obtain ⟨r, hr⟩ := exists_remark p t source i
  rwa [remark_eq_of_said hr]

/-! ## What is collected from an element -/

/-- What is collected from the children of an element. -/
def remarks (p : Policy) (t : Tree) (source : String) (element : Nat) : List Remark :=
  (t.children element).map (remark p t source)

/-- The targets are those of the remarks, in document order. -/
theorem targets_eq (p : Policy) (t : Tree) (source : String) (element : Nat) :
    targets t element = (remarks p t source element).filterMap Remark.target := by
  rw [targets, remarks, List.filterMap_map]
  rfl

/-- The last relationship named counts. -/
theorem relationship?_eq (p : Policy) (t : Tree) (source : String) (element : Nat) :
    relationship? p t element =
      ((remarks p t source element).filterMap Remark.relationship).getLast? := by
  rw [relationship?, remarks, List.filterMap_map, ← List.getLast?_map]
  refine congrArg _ ?_
  induction t.children element with
  | nil => rfl
  | cons i is ih =>
    by_cases hi : isRelationship t i = true <;>
      simp_all [remark, Function.comp_def]

/-- A child that is malformed is of another name than one that declares a relationship. -/
theorem unmapped?_eq_none (h : malformed? t source i ≠ none) : unmapped? p t source i = none := by
  have hname : t.name i ≠ "reference_type" := by
    rintro hname
    exact h (by simp [malformed?, hname])
  simp [unmapped?, isRelationship, hname]

/-- The problems are those of the remarks, in document order. -/
theorem childProblems_eq (p : Policy) (t : Tree) (source : String) (element : Nat) :
    childProblems p t source element =
      (remarks p t source element).filterMap Remark.problem := by
  rw [childProblems, remarks, List.filterMap_map, List.filterMap_eq_flatMap_toList]
  refine List.flatMap_congr fun i _ => ?_
  cases hm : malformed? t source i with
  | none => simp [remark, hm]
  | some q =>
    have hu : unmapped? p t source i = none := unmapped?_eq_none (by rw [hm]; simp)
    simp [remark, hm, hu]

theorem kind_of_malformed? {q : Problem} (h : malformed? t source i = some q) :
    q.kind = .malformedReference := by
  unfold malformed? at h
  split at h
  · split at h
    · cases h
    · obtain rfl := Option.some.inj h
      rfl
  · split at h
    · obtain rfl := Option.some.inj h
      rfl
    · cases h

theorem kind_of_unmapped? {q : Problem} (h : unmapped? p t source i = some q) :
    q.kind = .unmappedReferenceType := by
  unfold unmapped? at h
  split at h
  · obtain rfl := Option.some.inj h
    rfl
  · cases h

/-- A problem of a child is that a name is malformed just if the child is. -/
theorem isSome_malformed?_iff : (malformed? t source i).isSome = true ↔
    ∃ q ∈ (remark p t source i).problem, q.kind = .malformedReference := by
  constructor
  · intro h
    obtain ⟨q, hq⟩ := Option.isSome_iff_exists.mp h
    exact ⟨q, by simp [remark, hq], kind_of_malformed? hq⟩
  · rintro ⟨q, hq, hkind⟩
    rcases Option.or_eq_some_iff.mp hq with hm | ⟨-, hu⟩
    · exact Option.isSome_of_eq_some hm
    · rw [kind_of_unmapped? hu] at hkind
      cases hkind

theorem elementReferences_of_targets (h : targets t element = []) :
    elementReferences p t source element = [] := by
  unfold elementReferences
  split
  · rfl
  · rw [h, List.map_nil]

/-- An element that names its relationship gives a reference for each target. -/
theorem elementReferences_of_relationship {relationship : String}
    (h : relationship? p t element = some relationship) :
    elementReferences p t source element = (targets t element).map fun target =>
      ⟨target, relationship, source, some (t.pos element).line⟩ := by
  rw [elementReferences, h]

/-- Without a relationship there is no reference. -/
theorem elementReferences_of_none (h : relationship? p t element = none) :
    elementReferences p t source element = [] := by
  rw [elementReferences, h]

/-- What an association element comes to follows from the remarks of its children alone. -/
theorem comesTo_remarks (p : Policy) (t : Tree) (source : String) (element : Nat) :
    ComesTo t source element (remarks p t source element)
      (elementReferences p t source element) (elementProblems p t source element) := by
  have htargets := targets_eq p t source element
  have hrelationship := relationship?_eq p t source element
  rw [elementProblems, childProblems_eq, lack?]
  by_cases hempty : targets t element = []
  · have hnone : ∀ r ∈ remarks p t source element, r.target = none :=
      List.filterMap_eq_nil_iff.mp (htargets.symm.trans hempty)
    rw [elementReferences_of_targets hempty, if_pos (List.isEmpty_iff.mpr hempty)]
    by_cases hany : ∃ i ∈ t.children element, (malformed? t source i).isSome = true
    · rw [if_pos (List.any_eq_true.mpr hany), Option.toList_none, List.append_nil]
      obtain ⟨i, hi, hsome⟩ := hany
      exact .malformed hnone
        ⟨remark p t source i, List.mem_map_of_mem hi, isSome_malformed?_iff.mp hsome⟩
    · rw [if_neg (mt List.any_eq_true.mp hany), Option.toList_some]
      refine .untold hnone fun r hr q hq hkind => ?_
      obtain ⟨i, hi, rfl⟩ := List.mem_map.mp hr
      exact hany ⟨i, hi, isSome_malformed?_iff.mpr ⟨q, hq, hkind⟩⟩
  · have hsome : ∃ r ∈ remarks p t source element, r.target ≠ none := by
      by_contra hcon
      push Not at hcon
      exact hempty (htargets.trans (List.filterMap_eq_nil_iff.mpr hcon))
    rw [if_neg (mt List.isEmpty_iff.mp hempty)]
    cases hlast : relationship? p t element with
    | some relationship =>
      rw [elementReferences_of_relationship hlast, htargets, Option.isNone_some,
        if_neg Bool.false_ne_true, Option.toList_none, List.append_nil]
      exact .related hsome (hrelationship.symm.trans hlast)
    | none =>
      rw [elementReferences_of_none hlast, Option.isNone_none, if_pos rfl, Option.toList_some]
      refine .unrelated hsome ?_
      rw [hrelationship, List.getLast?_eq_none_iff, List.filterMap_eq_nil_iff] at hlast
      exact hlast

/-! ## All elements -/

/-- The branch that goes to all nodes of a name from the document. -/
theorem mem_evaluate_descendantStep {pattern : String} {context : Nat} {q : Place} :
    q ∈ Branch.evaluate ⟨true, [Policy.descendantStep pattern]⟩ t context ↔
      ∃ i < t.size, Selector.matchesName pattern (t.name i) = true ∧ q = .node i := by
  simp only [Branch.evaluate, Policy.descendantStep, List.foldl_cons, List.foldl_nil, if_true,
    List.flatMap_singleton, Place.mem_inOrder, Step.apply, Place.below, Tree.all, NameTest.accepts,
    Option.isNone_none, Bool.true_or, Bool.true_and, Option.all_none, Bool.and_true, List.mem_map,
    List.mem_filter, List.mem_range]
  constructor
  · rintro ⟨i, ⟨hi, hname⟩, rfl⟩
    exact ⟨i, hi, hname, rfl⟩
  · rintro ⟨i, hi, hname, rfl⟩
    exact ⟨i, ⟨hi, hname⟩, rfl⟩

theorem isAssociation_iff {name : String} : IsAssociation name ↔
    Selector.matchesName "*Member_Entry" name = true ∨
      Selector.matchesName "Internal_Reference" name = true ∨
      Selector.matchesName "Source_Product_Internal" name = true := by
  have hstar : Selector.matchesName "*Member_Entry" name =
      "Member_Entry".toList.isSuffixOf name.toList := rfl
  have hwhole (pattern : String) (h : Text.pieces '*' pattern.toList = [pattern.toList]) :
      Selector.matchesName pattern name = true ↔ name = pattern := by
    rw [Selector.matchesName, h, beq_iff_eq, String.toList_inj, eq_comm]
  rw [hstar, hwhole _ (by decide), hwhole _ (by decide), List.isSuffixOf_iff_suffix, IsAssociation]
  refine or_congr_left ⟨?_, ?_⟩
  · rintro ⟨front, rfl⟩
    exact ⟨front.toList, by rw [String.toList_append]⟩
  · rintro ⟨front, hfront⟩
    refine ⟨String.ofList front, String.toList_inj.mp ?_⟩
    rw [String.toList_append, String.toList_ofList, hfront]

/-- The association elements are those of such a name, wherever they stand. -/
theorem mem_associations_iff : i ∈ associations t ↔ i < t.size ∧ IsAssociation (t.name i) := by
  have hnode (q : Place) : q.node? = some i ↔ q = .node i := by
    cases q <;> simp [Place.node?]
  simp only [associations, Selector.selectAll, Selector.select, Policy.associations,
    List.mem_filterMap, hnode, exists_eq_right, Place.mem_inOrder, List.mem_flatMap,
    List.mem_cons, List.not_mem_nil, or_false, exists_eq_or_imp, exists_eq_left,
    mem_evaluate_descendantStep, Place.node.injEq, isAssociation_iff]
  constructor
  · rintro (⟨j, hj, h, rfl⟩ | ⟨j, hj, h, rfl⟩ | ⟨j, hj, h, rfl⟩)
    · exact ⟨hj, .inl h⟩
    · exact ⟨hj, .inr (.inl h)⟩
    · exact ⟨hj, .inr (.inr h)⟩
  · rintro ⟨hi, h | h | h⟩
    · exact .inl ⟨i, hi, h, rfl⟩
    · exact .inr (.inl ⟨i, hi, h, rfl⟩)
    · exact .inr (.inr ⟨i, hi, h, rfl⟩)

/-- The associations of a modern label, and the problems met while making its record, are those that
its association elements come to, in document order. None of these elements is passed over in
silence. -/
theorem extract_associations (hd : t.dialect = .modern) (p : Policy) (source : String) :
    ∃ (elements : List Nat) (references : Nat → List Reference) (problems : Nat → List Problem),
      elements.Pairwise (· < ·) ∧
      (∀ i, i ∈ elements ↔ i < t.size ∧ IsAssociation (t.name i)) ∧
      (t.extract p source).record.references = elements.flatMap references ∧
      (t.extract p source).problems = elements.flatMap problems ∧
      ∀ i ∈ elements,
        (∃ remarks, List.Forall₂ (Says p t source) (t.children i) remarks ∧
          ComesTo t source i remarks (references i) (problems i)) ∧
        (references i ≠ [] ∨ problems i ≠ []) := by
  have hextract : t.extract p source = ⟨record p t source, problems p t source⟩ := by
    rw [Tree.extract, hd]
  rw [hextract]
  refine ⟨associations t, elementReferences p t source, elementProblems p t source,
    Selector.pairwise_select _ t 0, fun _ => mem_associations_iff, rfl, rfl, fun i _ => ?_⟩
  have hcomes := comesTo_remarks p t source i
  refine ⟨⟨remarks p t source i, ?_, hcomes⟩, hcomes.ne_nil⟩
  exact List.forall₂_map_right_iff.mpr (List.forall₂_same.mpr fun j _ => says_remark p t source j)

/-- A label of two association elements. The first one names one product well and one badly, and
declares two relationships, of which the table has the first; the second one is empty. -/
def mixedLabel : String :=
  "<P><Internal_Reference>\n<reference_type>a</reference_type>\n" ++
    "<lidvid_reference>urn:x</lidvid_reference>\n<lid_reference>urn:y</lid_reference>\n" ++
    "<reference_type>b</reference_type></Internal_Reference><Bundle_Member_Entry/></P>"

/-- The nodes of that label. -/
def mixedTree : Tree where
  dialect := .modern
  nodes := #[⟨"P", none, [], none, ⟨1, 1⟩, none⟩,
    ⟨"Internal_Reference", none, [], some "\n\n\n\n", ⟨1, 4⟩, some 0⟩,
    ⟨"reference_type", none, [], some "a", ⟨2, 1⟩, some 1⟩,
    ⟨"lidvid_reference", none, [], some "urn:x", ⟨3, 1⟩, some 1⟩,
    ⟨"lid_reference", none, [], some "urn:y", ⟨4, 1⟩, some 1⟩,
    ⟨"reference_type", none, [], some "b", ⟨5, 1⟩, some 1⟩,
    ⟨"Bundle_Member_Entry", none, [], none, ⟨5, 56⟩, some 0⟩]

/-- A policy with a table of one relationship. -/
def mixedPolicy : Policy :=
  ⟨[], [], some [("a", "is_a")], [], [], Config.default.legacy, []⟩

/-- The product that is named well is related in the way that is declared last. -/
def mixedReferences : List Reference := [⟨⟨"urn:y", none⟩, "b", "p.xml", some 1⟩]

/-- All that is wrong. -/
def mixedProblems : List Problem :=
  [⟨.malformedReference, .error, "Expected a LID-VID reference, but found this: urn:x", "p.xml",
      some 3, some 1⟩,
    ⟨.unmappedReferenceType, .warning, "No mapping found for reference type 'b'.", "p.xml", some 5,
      some 1⟩,
    ⟨.missingReferenceTarget, .error,
      "Missing one or more 'lidvid_reference' or 'lid_reference' elements.", "p.xml", some 5,
      some 56⟩]

set_option maxRecDepth 100000 in
/-- Both elements of that label are heard. -/
theorem extract_associations_mixed :
    (Tree.ofText .modern mixedLabel).toOption = some mixedTree ∧ mixedTree.dialect = .modern ∧
    (mixedTree.extract mixedPolicy "p.xml").record.references = mixedReferences ∧
    (mixedTree.extract mixedPolicy "p.xml").problems = mixedProblems ∧
    ∃ (elements : List Nat) (references : Nat → List Reference) (problems : Nat → List Problem),
      (∀ i, i ∈ elements ↔ i < 7 ∧ IsAssociation (mixedTree.name i)) ∧
      mixedReferences = elements.flatMap references ∧
      mixedProblems = elements.flatMap problems ∧
      ∀ i ∈ elements, references i ≠ [] ∨ problems i ≠ [] := by
  have helements : associations mixedTree = [1, 6] := by cbv
  have hreferences : (mixedTree.extract mixedPolicy "p.xml").record.references =
      mixedReferences := by
    change (associations mixedTree).flatMap _ = _
    rw [helements]
    decide +kernel
  have hproblems : (mixedTree.extract mixedPolicy "p.xml").problems = mixedProblems := by
    change (associations mixedTree).flatMap _ = _
    rw [helements]
    decide +kernel
  obtain ⟨elements, references, problems, -, hmem, hr, hp, hall⟩ :=
    extract_associations (t := mixedTree) rfl mixedPolicy "p.xml"
  exact ⟨by decide +kernel, rfl, hreferences, hproblems, elements, references, problems, hmem,
    hreferences.symm.trans hr, hproblems.symm.trans hp, fun i hi => (hall i hi).2⟩

end ArchiveLabels.Extraction.Modern
