import ArchiveLabels.Odl.Scanner

/-!
# The statements of a legacy label

`Statement.next?` reads one statement, `statements` all of them up to a bare `END` or the end of the
text. Each statement takes at least its keyword from the text (`next?_length`), so the reading ends.
-/

namespace ArchiveLabels.Odl

open Text

/-- A quoted string or a set starts here. -/
def startsDelimited : List Char → Bool
  | c :: _ => c == '"' || c == '\'' || c == '{' || c == '('
  | [] => false

/-- The line ends here. -/
def endsLine : List Char → Bool
  | c :: _ => c == '\n' || c == '\r'
  | [] => true

/-- Moves from behind an equals sign to the value. A value in a later line has to be a quoted string
or a set. -/
def toValue (keyword : String) (line : Nat) (c : Cursor) : Except Fault Cursor :=
  let c := skipSpace c
  if endsLine c.rest then
    match skipBlank c with
    | .error e => .error e
    | .ok d => if startsDelimited d.rest then .ok d else .error ⟨.missingValue keyword, line⟩
  else .ok c

namespace Statement

/-- Reads what follows the keyword of a statement that stands at `pos`; `none` is the bare `END`. -/
def body? (keyword : String) (pos : Position) (c : Cursor) :
    Except Fault (Option (Statement × Cursor)) :=
  if startsWith '=' c.rest then
    match toValue keyword pos.line (c.drop 1) with
    | .error e => .error e
    | .ok d =>
      match Odl.value keyword d with
      | .error e => .error e
      | .ok (v, e) => .ok (some (⟨keyword, some v, pos⟩, e))
  else if keyword = "END" then .ok none
  else
    match role keyword with
    | .closes _ => .ok (some (⟨keyword, none, pos⟩, c))
    | _ => .error ⟨.missingEquals keyword, pos.line⟩

/-- Reads the next statement; `none` is the end of the label. -/
def next? (c : Cursor) : Except Fault (Option (Statement × Cursor)) :=
  match skipBlank c with
  | .error e => .error e
  | .ok c =>
    if c.rest.isEmpty then .ok none
    else
      let (keyword, d) := c.takeUntil endsKeyword
      if keyword.isEmpty then .error ⟨.expectedKeyword (d.rest.headD ' '), c.pos.line⟩
      else body? (String.ofList keyword) c.pos (skipSpace d)

end Statement

/-! ## Every statement takes at least its keyword -/

theorem toValue_length {k : String} {l : Nat} {c d : Cursor} (h : toValue k l c = .ok d) :
    d.rest.length ≤ c.rest.length := by
  unfold toValue at h
  have h1 := skipSpace_length c
  simp only at h
  split at h
  · split at h
    · cases h
    · rename_i hb
      have h2 := skipBlank_length hb
      split at h
      · cases h
        omega
      · cases h
  · cases h
    omega

mutual

theorem members_length {line : Nat} {close : Char} {outer : List Char} {c d : Cursor}
    {ms : List Scalar} (h : members line close outer c = .ok (ms, d)) :
    d.rest.length ≤ c.rest.length := by
  unfold members at h
  split at h
  · cases h
  · rename_i b hb
    have h1 := skipBlank_length hb
    split at h
    · cases h
    · rename_i x xs hd
      have h2 := drop_length b 1
      have h3 : b.rest.length ≠ 0 := by simp [hd]
      split at h
      · split at h
        · cases h
          omega
        · have := membersAfter_length h
          omega
      · split at h
        · have := members_length h
          omega
        · split at h
          · cases h
          · rename_i hs
            have h4 := scalar_length hs
            split at h
            · cases h
            · rename_i ha
              have h5 := membersAfter_length ha
              cases h
              omega
termination_by (c.rest.length, 0)
decreasing_by
  all_goals
    apply Prod.Lex.left
    omega

theorem membersAfter_length {line : Nat} {close : Char} {outer : List Char} {c d : Cursor}
    {ms : List Scalar} (h : membersAfter line close outer c = .ok (ms, d)) :
    d.rest.length ≤ c.rest.length := by
  unfold membersAfter at h
  split at h
  · cases h
  · rename_i b hb
    have h1 := skipBlank_length hb
    split at h
    · cases h
    · rename_i x xs hd
      have h2 := drop_length b 1
      have h3 : b.rest.length ≠ 0 := by simp [hd]
      split at h
      · have := members_length h
        omega
      · split at h
        · have := members_length h
          omega
        · cases h
termination_by (c.rest.length, 1)
decreasing_by
  all_goals
    simp only [Prod.lex_def]
    omega

end

theorem value_length {k : String} {c d : Cursor} {v : Value} (h : value k c = .ok (v, d)) :
    d.rest.length ≤ c.rest.length := by
  unfold value at h
  have h2 := drop_length c 1
  split at h
  · cases h
  · split at h
    · rcases hm : members c.pos.line _ [] (c.drop 1) with e | ⟨ms, d'⟩
      · rw [hm] at h
        cases h
      · have := members_length hm
        rw [hm] at h
        cases h
        omega
    · rcases hs : scalar k [] c with e | ⟨s, d'⟩
      · rw [hs] at h
        cases h
      · have := scalar_length hs
        rw [hs] at h
        cases h
        omega

theorem body?_length {k : String} {p : Position} {c d : Cursor} {s : Statement}
    (h : Statement.body? k p c = .ok (some (s, d))) : d.rest.length ≤ c.rest.length := by
  unfold Statement.body? at h
  have h2 := drop_length c 1
  split at h
  · split at h
    · cases h
    · rename_i ht
      have h3 := toValue_length ht
      split at h
      · cases h
      · rename_i hv
        have h4 := value_length hv
        cases h
        omega
  · split at h
    · cases h
    · split at h
      · cases h
        omega
      · cases h

theorem next?_length {c d : Cursor} {s : Statement} (h : Statement.next? c = .ok (some (s, d))) :
    d.rest.length < c.rest.length := by
  unfold Statement.next? at h
  split at h
  · cases h
  · rename_i b hb
    have h1 := skipBlank_length hb
    split at h
    · cases h
    · simp only at h
      have h2 := takeUntil_length endsKeyword b
      split at h
      · cases h
      · rename_i hk
        have h3 := body?_length h
        have h4 := skipSpace_length (b.takeUntil endsKeyword).2
        have h5 : (b.takeUntil endsKeyword).1.length ≠ 0 := by
          simpa [List.isEmpty_iff_length_eq_zero] using hk
        omega

/-! ## All statements -/

/-- The statements from the cursor on, and the fault that ends them if one does. -/
def statements (c : Cursor) : List Statement × Option Fault :=
  match _ : Statement.next? c with
  | .error e => ([], some e)
  | .ok none => ([], none)
  | .ok (some (s, d)) =>
    let (ss, fault) := statements d
    (s :: ss, fault)
termination_by c.rest.length
decreasing_by exact next?_length ‹_›

end ArchiveLabels.Odl
