import ArchiveLabels.Selector.Basic
import ArchiveLabels.Text.Alphanumeric

/-!
# Reading selectors

`Selector.parse` reads an expression; a namespace prefix in it stands for the namespace that a table
binds it to. Each reading function gives what it read and the rest of the expression, or the
`Trouble` it met; a step takes at least one character (`readStep_length`), so the reading ends.
-/

namespace ArchiveLabels.Selector

open Text

/-- What ends the reading of an expression. -/
inductive Trouble where
  /-- The expression is malformed, where `rest` starts. -/
  | malformed (rest : List Char) (reason : Reason)
  /-- A prefix is bound to no namespace. -/
  | unknown (qualifier : String)

/-- Prefixes and the namespaces they are bound to. -/
abbrev Bindings := List (String × String)

/-- A character of the name of a child. -/
def isChildChar (c : Char) : Bool :=
  isAlphanumeric c || c == '_' || c == '-'

/-- A character of a name test. -/
def isTestChar (c : Char) : Bool :=
  isChildChar c || c == '*' || c == ':'

/-- The text before the first `quote` and the text behind it. -/
def cutAt? (quote : Char) : List Char → Option (List Char × List Char)
  | [] => none
  | c :: cs =>
    if c = quote then some ([], cs) else (cutAt? quote cs).map fun (run, rest) => (c :: run, rest)

/-- Reads a name test from its token, behind which `rest` stands. -/
def nameTest (bindings : Bindings) (token rest : List Char) : Except Trouble NameTest :=
  match cutAt? ':' token with
  | none => .ok ⟨none, String.ofList token⟩
  | some (qualifier, name) =>
    if name.isEmpty || name.contains ':' then
      .error (.malformed rest (.malformedName (String.ofList token)))
    else
      match bindings.lookup (String.ofList qualifier) with
      | some space => .ok ⟨some space, String.ofList name⟩
      | none => .error (.unknown (String.ofList qualifier))

/-- Reads a test from behind its bracket. -/
def readTest (cs : List Char) : Except Trouble (ChildTest × List Char) :=
  let cs := trimStart cs
  let child := cs.takeWhile isChildChar
  let cs := cs.dropWhile isChildChar
  if child.isEmpty then .error (.malformed cs .expectedChild)
  else
    match trimStart cs with
    | '=' :: cs =>
      match trimStart cs with
      | [] => .error (.malformed [] .expectedQuoted)
      | q :: cs =>
        if q = '"' || q = '\'' then
          match cutAt? q cs with
          | none => .error (.malformed cs .unterminatedString)
          | some (value, cs) =>
            match trimStart cs with
            | ']' :: cs => .ok (⟨String.ofList child, String.ofList value⟩, cs)
            | cs => .error (.malformed cs .expectedBracket)
        else .error (.malformed (q :: cs) .expectedQuoted)
    | cs => .error (.malformed cs .expectedEquals)

/-- Reads the test behind a name test, if there is one. -/
def readTest? (cs : List Char) : Except Trouble (Option ChildTest × List Char) :=
  match trimStart cs with
  | '[' :: cs =>
    match readTest cs with
    | .ok (t, cs) => .ok (some t, cs)
    | .error e => .error e
  | cs => .ok (none, cs)

/-- Reads a name test and what follows it. -/
def readDown (bindings : Bindings) (axis : Axis) (cs : List Char) :
    Except Trouble (Step × List Char) :=
  let token := cs.takeWhile isTestChar
  let rest := cs.dropWhile isTestChar
  if token.isEmpty then .error (.malformed rest .expectedName)
  else
    match nameTest bindings token rest with
    | .error e => .error e
    | .ok name =>
      match readTest? rest with
      | .error e => .error e
      | .ok (test, rest) => .ok (.down axis name test, rest)

/-- Reads a step. -/
def readStep (bindings : Bindings) (axis : Axis) (cs : List Char) :
    Except Trouble (Step × List Char) :=
  match cs with
  | '.' :: rest =>
    match axis, rest with
    | .descendant, _ => .error (.malformed cs .dotsBelow)
    | .child, '.' :: rest => .ok (.up, rest)
    | .child, rest => .ok (.here, rest)
  | cs => readDown bindings axis cs

/-- Reads the slashes in front. -/
def readAxis? : List Char → Option (Axis × List Char)
  | '/' :: '/' :: cs => some (.descendant, cs)
  | '/' :: cs => some (.child, cs)
  | _ => none

/-! ## How much is read -/

theorem dropWhile_length (p : Char → Bool) (cs : List Char) :
    (cs.dropWhile p).length ≤ cs.length :=
  (List.dropWhile_sublist p).length_le

theorem trimStart_length (cs : List Char) : (trimStart cs).length ≤ cs.length :=
  dropWhile_length isBlank cs

theorem cutAt?_length {q : Char} {cs run rest : List Char} (h : cutAt? q cs = some (run, rest)) :
    rest.length < cs.length := by
  induction cs generalizing run with
  | nil => cases h
  | cons c cs ih =>
    unfold cutAt? at h
    split at h
    · cases h
      simp
    · obtain ⟨⟨r, s⟩, hr, he⟩ := Option.map_eq_some_iff.1 h
      cases he
      have := ih hr
      rw [List.length_cons]
      omega

theorem readTest_length {cs rest : List Char} {t : ChildTest} (h : readTest cs = .ok (t, rest)) :
    rest.length ≤ cs.length := by
  unfold readTest at h
  simp only at h
  have h1 := trimStart_length cs
  have h2 := dropWhile_length isChildChar (trimStart cs)
  split at h
  · cases h
  · split at h
    · rename_i a ha
      have h3 := trimStart_length ((trimStart cs).dropWhile isChildChar)
      rw [ha, List.length_cons] at h3
      split at h
      · cases h
      · rename_i q b hb
        have h4 := trimStart_length a
        rw [hb, List.length_cons] at h4
        split at h
        · split at h
          · cases h
          · rename_i v c hc
            have h5 := cutAt?_length hc
            split at h
            · rename_i d hd
              have h6 := trimStart_length c
              rw [hd, List.length_cons] at h6
              cases h
              omega
            · cases h
        · cases h
    · cases h

theorem readTest?_length {cs rest : List Char} {t : Option ChildTest}
    (h : readTest? cs = .ok (t, rest)) : rest.length ≤ cs.length := by
  unfold readTest? at h
  have h1 := trimStart_length cs
  split at h
  · rename_i a ha
    rw [ha, List.length_cons] at h1
    split at h
    · rename_i ht
      have := readTest_length ht
      cases h
      omega
    · cases h
  · cases h
    omega

theorem takeWhile_dropWhile_length (p : Char → Bool) (cs : List Char) :
    (cs.takeWhile p).length + (cs.dropWhile p).length = cs.length := by
  rw [← List.length_append, List.takeWhile_append_dropWhile]

theorem readDown_length {bindings : Bindings} {axis : Axis} {cs rest : List Char} {s : Step}
    (h : readDown bindings axis cs = .ok (s, rest)) : rest.length < cs.length := by
  unfold readDown at h
  simp only at h
  have h1 := takeWhile_dropWhile_length isTestChar cs
  split at h
  · cases h
  · rename_i hne
    have h2 : (cs.takeWhile isTestChar).length ≠ 0 := by
      simpa [List.isEmpty_iff_length_eq_zero] using hne
    split at h
    · cases h
    · split at h
      · cases h
      · rename_i ht
        have := readTest?_length ht
        cases h
        omega

/-- A step takes at least one character. -/
theorem readStep_length {bindings : Bindings} {axis : Axis} {cs rest : List Char} {s : Step}
    (h : readStep bindings axis cs = .ok (s, rest)) : rest.length < cs.length := by
  unfold readStep at h
  split at h
  · split at h
    · cases h
    · cases h
      simp only [List.length_cons]
      omega
    · cases h
      simp only [List.length_cons]
      omega
  · exact readDown_length h

theorem readAxis?_length {cs rest : List Char} {a : Axis} (h : readAxis? cs = some (a, rest)) :
    rest.length < cs.length := by
  unfold readAxis? at h
  split at h
  · cases h
    simp only [List.length_cons]
    omega
  · cases h
    simp only [List.length_cons]
    omega
  · cases h

/-! ## Branches and unions -/

/-- Reads the steps behind the first one. -/
def readSteps (bindings : Bindings) (cs : List Char) : Except Trouble (List Step × List Char) :=
  match _ : readAxis? cs with
  | none => .ok ([], cs)
  | some (axis, ds) =>
    match _ : readStep bindings axis ds with
    | .error e => .error e
    | .ok (s, es) =>
      match readSteps bindings es with
      | .error e => .error e
      | .ok (ss, rest) => .ok (s :: ss, rest)
termination_by cs.length
decreasing_by
  have h1 := readAxis?_length ‹readAxis? cs = _›
  have h2 := readStep_length ‹readStep bindings axis ds = _›
  omega

/-- Reads a branch, whose first step follows no slash, or one that makes it absolute. -/
def readBranch (bindings : Bindings) (cs : List Char) : Except Trouble (Branch × List Char) :=
  let cs := trimStart cs
  let (absolute, axis, ds) :=
    match readAxis? cs with
    | some (axis, ds) => (true, axis, ds)
    | none => (false, .child, cs)
  match readStep bindings axis ds with
  | .error e => .error e
  | .ok (s, es) =>
    match readSteps bindings es with
    | .error e => .error e
    | .ok (ss, rest) => .ok (⟨absolute, s :: ss⟩, rest)

theorem readSteps_length {bindings : Bindings} {cs rest : List Char} {ss : List Step}
    (h : readSteps bindings cs = .ok (ss, rest)) : rest.length ≤ cs.length := by
  fun_induction readSteps bindings cs generalizing ss rest with
  | case1 => cases h; omega
  | case2 => cases h
  | case3 => cases h
  | case4 cs axis ds ha s es hs ss' rest' hr ih =>
    have h1 := readAxis?_length ha
    have h2 := readStep_length hs
    have h3 := ih hr
    cases h
    omega

theorem readBranch_length {bindings : Bindings} {cs rest : List Char} {b : Branch}
    (h : readBranch bindings cs = .ok (b, rest)) : rest.length < cs.length := by
  unfold readBranch at h
  have h0 := trimStart_length cs
  simp only at h
  split at h
  · cases h
  · rename_i s es hs
    have h1 := readStep_length hs
    split at h
    · cases h
    · rename_i hr
      have h2 := readSteps_length hr
      cases h
      split at h1
      · rename_i ha
        have := readAxis?_length ha
        simp only at h1
        omega
      · simp only at h1
        omega

/-- Reads branches with bars between them, up to the end of the expression. -/
def readUnion (bindings : Bindings) (cs : List Char) : Except Trouble (List Branch) :=
  match _ : readBranch bindings cs with
  | .error e => .error e
  | .ok (b, ds) =>
    match _ : trimStart ds with
    | [] => .ok [b]
    | '|' :: es =>
      match readUnion bindings es with
      | .error e => .error e
      | .ok bs => .ok (b :: bs)
    | rest => .error (.malformed rest .trailingInput)
termination_by cs.length
decreasing_by
  have h1 := readBranch_length ‹readBranch bindings cs = _›
  have h2 := trimStart_length ds
  rw [‹trimStart ds = _›, List.length_cons] at h2
  omega

/-- The error that a trouble with the expression `source` is. -/
def Trouble.error (source : String) : Trouble → SelectorError
  | malformed rest reason =>
    .malformed source (source.utf8ByteSize - (String.ofList rest).utf8ByteSize) reason
  | unknown qualifier => .unknownQualifier source qualifier

/-- Reads an expression. -/
def parse (bindings : Bindings) (source : String) : Except SelectorError Selector :=
  if (trimStart source.toList).isEmpty then .error .empty
  else
    match readUnion bindings source.toList with
    | .ok branches => .ok ⟨source, branches⟩
    | .error e => .error (e.error source)

end ArchiveLabels.Selector
