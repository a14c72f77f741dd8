import ArchiveLabels.Proofs.Text.Blank
import ArchiveLabels.Record.Identifier

/-!
# Tokens of identifiers

Separators can overlap : in `a:::b` one starts at each of the first two colons, and the leftmost one
counts (`Identifier.CutFirst`). `Identifier.Names` says which identifier a text names, without the
reader, and `Identifier.parse_eq_ok_iff` that the reader finds just that one in a token. What is in
front of the leftmost separator and what is behind it give the text again when the separator is put
between them, so that an identifier is written as it was read (`Identifier.parse_written_back`).
-/

namespace ArchiveLabels.Identifier

open Text

variable {cs before after : List Char} {s token : String} {i : Identifier}

/-- The characters have no separator in them. -/
def Undivided (cs : List Char) : Prop :=
  ∀ before after, cs ≠ before ++ ':' :: ':' :: after

/-- The characters are `before` and `after` with the separator between them, and no other separator
starts further to the left. -/
structure CutFirst (cs before after : List Char) : Prop where
  eq : cs = before ++ ':' :: ':' :: after
  leftmost : ∀ b a, cs = b ++ ':' :: ':' :: a → before.length ≤ b.length

/-- The text names the identifier : a logical identifier alone, or one in front of the leftmost
separator and a version behind it. -/
inductive Names (s : String) : Identifier → Prop
  | unversioned (hne : s ≠ "") (h : Undivided s.toList) : Names s ⟨s, none⟩
  | versioned {lid version : String} (h : CutFirst s.toList lid.toList version.toList)
      (hlid : lid ≠ "") (hversion : version ≠ "") (hone : Undivided version.toList) :
      Names s ⟨lid, some version⟩

/-! ## The leftmost separator -/

theorem undivided_nil : Undivided [] := fun before after h => by simp at h

/-- A text is undivided when no pair of colons stands in front and the rest is undivided. -/
theorem undivided_cons {c : Char} : Undivided (c :: cs) ↔
    (∀ rest, c :: cs ≠ ':' :: ':' :: rest) ∧ Undivided cs := by
  constructor
  · exact fun h => ⟨h [], fun before after heq => h (c :: before) after (by rw [heq]; rfl)⟩
  · rintro ⟨hhead, htail⟩ (_ | ⟨d, before⟩) after heq
    · exact hhead after heq
    · exact htail before after (List.cons.inj heq).2

theorem cutFirst_nil_iff : CutFirst cs [] after ↔ cs = ':' :: ':' :: after :=
  ⟨CutFirst.eq, fun h => ⟨h, fun _ _ _ => Nat.zero_le _⟩⟩

/-- A character in front, with which no separator starts, goes to what is in front. -/
theorem cutFirst_cons_iff {c d : Char} : CutFirst (c :: cs) (d :: before) after ↔
    (∀ rest, c :: cs ≠ ':' :: ':' :: rest) ∧ c = d ∧ CutFirst cs before after := by
  constructor
  · rintro ⟨heq, hleft⟩
    obtain ⟨rfl, rfl⟩ := List.cons.inj heq
    refine ⟨fun rest h => ?_, rfl, rfl, fun b a h => ?_⟩
    · exact absurd (hleft [] rest h) (Nat.not_succ_le_zero _)
    · exact Nat.le_of_succ_le_succ (hleft (c :: b) a (by rw [h]; rfl))
  · rintro ⟨hhead, rfl, rfl, hleft⟩
    refine ⟨rfl, ?_⟩
    rintro (_ | ⟨e, b⟩) a h
    · exact absurd h (hhead a)
    · exact Nat.succ_le_succ (hleft b a (List.cons.inj h).2)

theorem not_cutFirst_of_undivided (h : Undivided cs) : ¬CutFirst cs before after :=
  fun hcut => h before after hcut.eq

theorem cut?_cons {c : Char} (h : ∀ rest, c :: cs ≠ ':' :: ':' :: rest) :
    cut? (c :: cs) = (cut? cs).map fun (before, after) => (c :: before, after) := by
  rw [cut?]
  rintro rest rfl rfl
  exact h rest rfl

/-- A text is cut at its first pair of colons, or has none. -/
theorem cut?_spec (cs : List Char) : (cut? cs = none ∧ Undivided cs) ∨
    ∃ before after, cut? cs = some (before, after) ∧ CutFirst cs before after := by
  induction cs with
  | nil => exact .inl ⟨rfl, undivided_nil⟩
  | cons c cs ih =>
    by_cases hhead : ∃ rest, c :: cs = ':' :: ':' :: rest
    · obtain ⟨rest, hrest⟩ := hhead
      rw [hrest]
      exact .inr ⟨[], rest, rfl, cutFirst_nil_iff.mpr rfl⟩
    · have hhead : ∀ rest, c :: cs ≠ ':' :: ':' :: rest := not_exists.mp hhead
      rw [cut?_cons hhead]
      rcases ih with ⟨hcut, h⟩ | ⟨before, after, hcut, h⟩
      · exact .inl ⟨by rw [hcut]; rfl, undivided_cons.mpr ⟨hhead, h⟩⟩
      · exact .inr ⟨c :: before, after, by rw [hcut]; rfl,
          cutFirst_cons_iff.mpr ⟨hhead, rfl, h⟩⟩

/-- There is one leftmost separator. -/
theorem CutFirst.unique {b a : List Char} (h : CutFirst cs before after) (h' : CutFirst cs b a) :
    b = before ∧ a = after := by
  have hlength : b.length = before.length :=
    Nat.le_antisymm (h'.leftmost _ _ h.eq) (h.leftmost _ _ h'.eq)
  obtain ⟨hb, ha⟩ := List.append_inj (h'.eq.symm.trans h.eq) hlength
  exact ⟨hb, (List.cons.inj (List.cons.inj ha).2).2⟩

theorem cut?_eq_none_iff : cut? cs = none ↔ Undivided cs := by
  rcases cut?_spec cs with ⟨hcut, h⟩ | ⟨before, after, hcut, h⟩
  · exact iff_of_true hcut h
  · exact iff_of_false (by rw [hcut]; nofun) fun hnone => not_cutFirst_of_undivided hnone h

theorem cut?_eq_some_iff : cut? cs = some (before, after) ↔ CutFirst cs before after := by
  rcases cut?_spec cs with ⟨hcut, h⟩ | ⟨b, a, hcut, h⟩
  · exact iff_of_false (by rw [hcut]; nofun) (not_cutFirst_of_undivided h)
  · rw [hcut, Option.some.injEq, Prod.mk.injEq]
    constructor
    · rintro ⟨rfl, rfl⟩
      exact h
    · exact fun h' => h'.unique h

/-! ## Reading and writing -/

/-- A version is what is left, neither empty nor divided again. -/
theorem parseVersion_eq_ok_iff {version : List Char} :
    parseVersion cs = .ok version ↔ version = cs ∧ cs ≠ [] ∧ Undivided cs := by
  unfold parseVersion
  cases hcut : cut? cs with
  | none =>
    cases cs with
    | nil => simp
    | cons c cs => simp [cut?_eq_none_iff.mp hcut, eq_comm]
  | some x =>
    have hdivided : ¬Undivided cs := fun h => by
      rw [cut?_eq_none_iff.mpr h] at hcut
      cases hcut
    simp only [hdivided, and_false, iff_false]
    split <;> nofun

/-- An undivided text names an identifier without version. -/
theorem parseChars_of_undivided (h : Undivided cs) :
    parseChars cs = .ok i ↔ cs ≠ [] ∧ i = ⟨String.ofList cs, none⟩ := by
  rw [parseChars, cut?_eq_none_iff.mpr h]
  cases cs with
  | nil => simp
  | cons c cs => simp [eq_comm]

/-- A divided one names both parts, of which neither is empty and the second not divided. -/
theorem parseChars_of_cutFirst (h : CutFirst cs before after) :
    parseChars cs = .ok i ↔ before ≠ [] ∧ (after ≠ [] ∧ Undivided after) ∧
      i = ⟨String.ofList before, some (String.ofList after)⟩ := by
  rw [parseChars, cut?_eq_some_iff.mpr h]
  cases before with
  | nil => simp
  | cons c before =>
    cases hversion : parseVersion after with
    | error e =>
      have hbad : ¬(after ≠ [] ∧ Undivided after) := fun hgood => by
        rw [parseVersion_eq_ok_iff.mpr ⟨rfl, hgood⟩] at hversion
        cases hversion
      exact iff_of_false (by simp [hversion]) fun h => hbad h.2.1
    | ok version =>
      obtain ⟨rfl, hgood⟩ := parseVersion_eq_ok_iff.mp hversion
      simp [hgood, hversion, eq_comm]

/-! ### What a text names -/

theorem names_of_undivided (h : Undivided s.toList) :
    Names s i ↔ s ≠ "" ∧ i = ⟨s, none⟩ := by
  constructor
  · rintro (⟨hne, -⟩ | ⟨hcut, -⟩)
    · exact ⟨hne, rfl⟩
    · exact absurd hcut (not_cutFirst_of_undivided h)
  · rintro ⟨hne, rfl⟩
    exact .unversioned hne h

theorem names_of_cutFirst (h : CutFirst s.toList before after) :
    Names s i ↔ before ≠ [] ∧ (after ≠ [] ∧ Undivided after) ∧
      i = ⟨String.ofList before, some (String.ofList after)⟩ := by
  constructor
  · rintro (⟨-, hundivided⟩ | ⟨hcut, hlid, hversion, hone⟩)
    · exact absurd h (not_cutFirst_of_undivided hundivided)
    · obtain ⟨rfl, rfl⟩ := h.unique hcut
      exact ⟨by simpa using hlid, ⟨by simpa using hversion, hone⟩, by simp⟩
  · rintro ⟨hbefore, ⟨hafter, hone⟩, rfl⟩
    exact .versioned (by simpa using h) (by simpa using hbefore) (by simpa using hafter)
      (by simpa using hone)

/-- The parser accepts exactly the texts that name an identifier. -/
theorem parseChars_eq_ok_iff : parseChars s.toList = .ok i ↔ Names s i := by
  rcases cut?_spec s.toList with ⟨-, h⟩ | ⟨before, after, -, h⟩
  · rw [parseChars_of_undivided h, names_of_undivided h, String.ofList_toList, ne_eq,
      String.toList_eq_nil_iff]
  · rw [parseChars_of_cutFirst h, names_of_cutFirst h]

/-- The reader finds the identifier that the trimmed token names. -/
theorem parse_eq_ok_iff : parse token = .ok i ↔ Names (trim token) i := by
  rw [← parseChars_eq_ok_iff, parse]
  cases parseChars (trim token).toList with
  | error e => simp
  | ok i' => simp

/-- An identifier is written as the text that names it. -/
theorem Names.written (h : Names s i) : i.written = s := by
  cases h with
  | unversioned => rfl
  | versioned hcut =>
    rw [← String.toList_inj, hcut.eq]
    simp [Identifier.written]

/-- Which texts name an identifier. -/
theorem exists_names_iff : (∃ i, Names s i) ↔ s ≠ "" ∧
    (Undivided s.toList ∨ ∃ before after, CutFirst s.toList before after ∧
      before ≠ [] ∧ after ≠ [] ∧ Undivided after) := by
  constructor
  · rintro ⟨_, ⟨hne, h⟩ | ⟨hcut, hlid, hversion, hone⟩⟩
    · exact ⟨hne, .inl h⟩
    · refine ⟨?_, .inr ⟨_, _, hcut, by simpa using hlid, by simpa using hversion, hone⟩⟩
      rintro rfl
      exact not_cutFirst_of_undivided undivided_nil hcut
  · rintro ⟨hne, h | ⟨before, after, hcut, hbefore, hafter, hone⟩⟩
    · exact ⟨_, (names_of_undivided h).mpr ⟨hne, rfl⟩⟩
    · exact ⟨_, (names_of_cutFirst hcut).mpr ⟨hbefore, ⟨hafter, hone⟩, rfl⟩⟩

theorem parseVersioned_eq_ok_iff :
    parseVersioned token = .ok i ↔ parse token = .ok i ∧ i.version ≠ none := by
  unfold parseVersioned
  cases parse token with
  | error e => simp
  | ok i' =>
    by_cases hsome : i'.version.isSome = true
    · simp only [if_pos hsome]
      refine ⟨fun h => ⟨h, ?_⟩, And.left⟩
      obtain rfl := Except.ok.inj h
      exact Option.isSome_iff_ne_none.mp hsome
    · simp only [if_neg hsome]
      refine iff_of_false nofun ?_
      rintro ⟨h, hversion⟩
      obtain rfl := Except.ok.inj h
      exact hsome (Option.isSome_iff_ne_none.mpr hversion)

/-- **An identifier is written as it was read.** A token is read just if it is not blank and, where
it has separators at all, the leftmost one has something on both sides and no separator behind it.
What is written of the identifier is the trimmed token, and reads as the same identifier. A reader
that asks for a version takes the same tokens for the same identifiers, those of no version
apart. -/
theorem parse_written_back (token : String) :
    ((∃ i, parse token = .ok i) ↔ trim token ≠ "" ∧
      (Undivided (trim token).toList ∨
        ∃ before after, CutFirst (trim token).toList before after ∧
          before ≠ [] ∧ after ≠ [] ∧ Undivided after)) ∧
    (∀ i, parse token = .ok i →
      Names (trim token) i ∧ i.written = trim token ∧ parse i.written = .ok i) ∧
    ∀ i, parseVersioned token = .ok i ↔ parse token = .ok i ∧ i.version ≠ none := by
  refine ⟨?_, fun i h => ?_, fun i => parseVersioned_eq_ok_iff⟩
  · simp only [parse_eq_ok_iff, exists_names_iff]
  · have hnames := parse_eq_ok_iff.mp h
    have hback : parse i.written = .ok i := by
      rw [parse_eq_ok_iff, hnames.written, trim_trim]
      exact hnames
    exact ⟨hnames, hnames.written, hback⟩

/-- Of three colons the third belongs to the version. -/
theorem parse_written_back_colons :
    parse " urn:a b:::2 " = .ok ⟨"urn:a b", some ":2"⟩ ∧
    (⟨"urn:a b", some ":2"⟩ : Identifier).written = "urn:a b:::2" ∧
    parse "urn:a b:::2" = .ok ⟨"urn:a b", some ":2"⟩ := by
  have hparse : parse " urn:a b:::2 " = .ok ⟨"urn:a b", some ":2"⟩ := by decide +kernel
  obtain ⟨-, hwritten, hback⟩ := (parse_written_back " urn:a b:::2 ").2.1 _ hparse
  exact ⟨hparse, hwritten, hback⟩

end ArchiveLabels.Identifier
