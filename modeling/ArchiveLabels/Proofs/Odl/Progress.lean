import ArchiveLabels.Proofs.Odl.Rounds

/-!
# Reading a legacy label comes to an end

The loops over the members of a set and over the statements of a label. A set inside a set is read
like any other, up to its own end, before the reading of the outer one goes on (`members_append`). So
a round of `setLoop` reads one member, and a member that is a set is what the same loop returns for
it. Such a member takes its bracket at least, and any other takes a character at least, as an empty
one is a fault (`leadsOn_member`). A round of `labelLoop` reads one statement, which takes at least
its keyword, and puts it into the tree.

Hence every round moves on in the text or is the last one, and no text keeps the reading from coming
to an end (`advances_readLabel`).
-/

namespace ArchiveLabels.Odl

open Text

variable {line : Nat} {close : Char} {outer : List Char} {ms : List Scalar} {c d : Cursor}

/-! ## Sets inside sets -/

/-- What is read first, followed by the members that `read` finds behind it. -/
def followedBy (first : Except Fault (List Scalar × Cursor))
    (read : Cursor → Except Fault (List Scalar × Cursor)) : Except Fault (List Scalar × Cursor) :=
  match first with
  | .error e => .error e
  | .ok (ms, c) => (read c).map fun r => (ms ++ r.1, r.2)

/-- Reads one member of a set, which may be a set itself. -/
def member (line : Nat) (close : Char) (c : Cursor) : Except Fault (List Scalar × Cursor) :=
  match c.rest with
  | [] => .error ⟨.unterminatedSet, line⟩
  | x :: _ =>
    if x = '{' || x = '(' then members line (closer x) [] (c.drop 1)
    else (scalar "set member" [',', close, '}', ')'] c).map fun r => ([r.1], r.2)

theorem followedBy_nil (c : Cursor) (read : Cursor → Except Fault (List Scalar × Cursor)) :
    followedBy (.ok ([], c)) read = read c := by
  cases h : read c <;> simp [followedBy, h, Except.map]

theorem followedBy_ok (ms : List Scalar) (c : Cursor)
    (read : Cursor → Except Fault (List Scalar × Cursor)) :
    followedBy (.ok (ms, c)) read = (read c).map fun r => (ms ++ r.1, r.2) :=
  rfl

theorem map_followedBy (before ms : List Scalar) (c : Cursor)
    (read : Cursor → Except Fault (List Scalar × Cursor)) :
    ((followedBy (.ok (ms, c)) read).map fun r => (before ++ r.1, r.2)) =
      followedBy (.ok (before ++ ms, c)) read := by
  simp only [followedBy_ok]
  cases read c <;> simp [Except.map]

mutual

/-- A set is read to its end before those around it are read on. -/
theorem members_append (line : Nat) (close close' : Char) (inner outer : List Char) (c : Cursor) :
    members line close (inner ++ close' :: outer) c =
      followedBy (members line close inner c) (membersAfter line close' outer) := by
  cases hskip : skipBlank c with
  | error fault => rw [members_of_fault hskip, members_of_fault hskip]; rfl
  | ok d =>
    have hlength := skipBlank_length hskip
    rw [members_of_skipBlank hskip, members_of_skipBlank hskip]
    cases hrest : d.rest with
    | nil => rfl
    | cons x xs =>
      have hdrop := drop_length d 1
      have hne : d.rest.length ≠ 0 := by simp [hrest]
      dsimp only
      split
      · cases inner with
        | nil => exact (followedBy_nil _ _).symm
        | cons i inner => exact membersAfter_append line i close' inner outer (d.drop 1)
      · split
        · exact members_append line (closer x) close' (close :: inner) outer (d.drop 1)
        · cases hscalar : scalar "set member" [',', close, '}', ')'] d with
          | error fault => rfl
          | ok r =>
            have hlength' := scalar_length hscalar
            dsimp only
            rw [membersAfter_append line close close' inner outer r.2]
            cases membersAfter line close inner r.2 with
            | error fault => rfl
            | ok after =>
              simp only [followedBy]
              cases membersAfter line close' outer after.2 <;> rfl
termination_by (c.rest.length, 0)
decreasing_by
  all_goals
    apply Prod.Lex.left
    omega

/-- Nested sets are read from the innermost brace outwards. -/
theorem membersAfter_append (line : Nat) (close close' : Char) (inner outer : List Char)
    (c : Cursor) : membersAfter line close (inner ++ close' :: outer) c =
      followedBy (membersAfter line close inner c) (membersAfter line close' outer) := by
  cases hskip : skipBlank c with
  | error fault => rw [membersAfter_of_fault hskip, membersAfter_of_fault hskip]; rfl
  | ok d =>
    have hlength := skipBlank_length hskip
    rw [membersAfter_of_skipBlank hskip, membersAfter_of_skipBlank hskip]
    cases hrest : d.rest with
    | nil => rfl
    | cons x xs =>
      have hdrop := drop_length d 1
      have hne : d.rest.length ≠ 0 := by simp [hrest]
      dsimp only
      split
      · exact members_append line close close' inner outer (d.drop 1)
      · split
        · exact members_append line close close' inner outer d
        · rfl
termination_by (c.rest.length, 1)
decreasing_by
  all_goals
    simp only [Prod.lex_def]
    omega

end

/-- Where the set does not end, a member is read and then what is behind it. -/
theorem members_of_member (hskip : skipBlank c = .ok d) (hopen : startsWith close d.rest = false) :
    members line close outer c =
      followedBy (member line close d) (membersAfter line close outer) := by
  rw [members_of_skipBlank hskip, member]
  cases hrest : d.rest with
  | nil => rfl
  | cons x xs =>
    have hne : x ≠ close := by simpa [hrest, startsWith] using hopen
    dsimp only
    rw [if_neg hne]
    split
    · exact members_append line (closer x) close [] outer (d.drop 1)
    · cases scalar "set member" [',', close, '}', ')'] d with
      | error fault => rfl
      | ok r =>
        simp only [followedBy, Except.map]
        cases membersAfter line close outer r.2 <;> rfl

/-- At its closing brace a set has no more members. -/
theorem members_of_close (hskip : skipBlank c = .ok d) (hclose : startsWith close d.rest = true) :
    members line close [] c = .ok ([], d.drop 1) := by
  rw [members_of_skipBlank hskip]
  cases hrest : d.rest with
  | nil => simp [hrest, startsWith] at hclose
  | cons x xs =>
    have heq : x = close := by simpa [hrest, startsWith] using hclose
    exact if_pos heq

/-- A member takes at least one character : the bracket of a set, or one of a value. -/
theorem leadsOn_member (h : member line close c = .ok (ms, d)) : c.LeadsOn d := by
  unfold member at h
  split at h
  · cases h
  · rename_i hrest
    split at h
    · exact (Cursor.leadsOn_drop Nat.one_pos (by simp [hrest])).trans_leadsTo (leadsTo_of_members h)
    · cases hscalar : scalar "set member" [',', close, '}', ')'] c with
      | error fault =>
        rw [hscalar] at h
        cases h
      | ok r =>
        rw [hscalar] at h
        cases h
        exact ⟨(ahead_scalar _ _ _).leadsTo hscalar, scalar_length hscalar⟩

/-! ## The members of a set -/

/-- Reads the members of a set that ends with `close`, each with the comma behind it. -/
def setLoop (line : Nat) (close : Char) :
    Loop (List Scalar × Cursor) (List Scalar × Cursor) where
  round s :=
    .attempt (skipBlank s.2) fun c =>
      if startsWith close c.rest then .returns (.ok (s.1, c.drop 1))
      else
        .attempt (member line close c) fun r =>
          .attempt (skipBlank r.2) fun d =>
            match d.rest with
            | [] => .returns (.error ⟨.unterminatedSet, line⟩)
            | x :: _ =>
              if x = ',' then .again (s.1 ++ r.1, d.drop 1)
              else if x = close then .again (s.1 ++ r.1, d)
              else .returns (.error ⟨.unexpectedInSet x, d.pos.line⟩)
  place := Prod.snd
  next := Prod.snd

/-- A round over a set that goes on has read a member. -/
theorem proceeds_setLoop (line : Nat) (close : Char) : (setLoop line close).Proceeds where
  again {s s'} h := by
    obtain ⟨c, hc, h⟩ := Round.attempt_eq_again_iff.mp h
    have hstart : s.2.LeadsTo c := (ahead_skipBlank s.2).leadsTo hc
    split at h
    · cases h
    · obtain ⟨r, hr, h⟩ := Round.attempt_eq_again_iff.mp h
      obtain ⟨d, hd, h⟩ := Round.attempt_eq_again_iff.mp h
      have hbehind : s.2.LeadsOn d :=
        (hstart.trans_leadsOn (leadsOn_member hr)).trans_leadsTo ((ahead_skipBlank r.2).leadsTo hd)
      split at h
      · cases h
      · split at h
        · cases h
          exact hbehind.trans_leadsTo (d.leadsTo_drop 1)
        · split at h
          · cases h
            exact hbehind
          · cases h
  returns {s x} h := by
    obtain ⟨c, hc, h⟩ := Round.attempt_eq_ok_iff.mp h
    have hstart : s.2.LeadsTo c := (ahead_skipBlank s.2).leadsTo hc
    split at h
    · cases h
      exact hstart.trans (c.leadsTo_drop 1)
    · obtain ⟨r, -, h⟩ := Round.attempt_eq_ok_iff.mp h
      obtain ⟨d, -, h⟩ := Round.attempt_eq_ok_iff.mp h
      split at h
      · cases h
      · split at h
        · cases h
        · split at h <;> cases h

/-- Where a member is due, a comma is none, and the loop does not stay in front of it. -/
example : (setLoop 1 '}').round ([], .ofString ", 1") =
    .returns (.error ⟨.missingValue "set member", 1⟩) :=
  rfl

/-- A round adds the member it reads to those before, and the set is read on from behind it. -/
theorem keeps_setLoop (line : Nat) (close : Char) :
    (setLoop line close).Keeps id fun s => followedBy (.ok s) (members line close []) := by
  rintro ⟨before, c⟩
  simp only [setLoop, followedBy_ok]
  cases hskip : skipBlank c with
  | error fault => rw [members_of_fault hskip]; rfl
  | ok d =>
    by_cases hclose : startsWith close d.rest = true
    · simp only [members_of_close hskip hclose, Round.attempt_ok, if_pos hclose, Except.map,
        List.append_nil, id]
    · have hopen : startsWith close d.rest = false := by simpa using hclose
      rw [members_of_member hskip hopen]
      simp only [Round.attempt_ok, if_neg hclose]
      cases member line close d with
      | error fault => rfl
      | ok r =>
        rw [map_followedBy, followedBy_ok, Round.attempt_ok]
        cases hskip' : skipBlank r.2 with
        | error fault => rw [membersAfter_of_fault hskip']; rfl
        | ok e =>
          rw [membersAfter_of_skipBlank hskip', Round.attempt_ok]
          cases e.rest with
          | nil => rfl
          | cons x xs =>
            dsimp only
            split
            · rfl
            · split <;> rfl

/-- The loop over a set returns its members. -/
theorem returns_setLoop (line : Nat) (close : Char) (c : Cursor) :
    (setLoop line close).Returns ([], c) (members line close [] c) := by
  have hreturns := (proceeds_setLoop line close).returns_of_keeps (keeps_setLoop line close) ([], c)
  have hfirst : followedBy (.ok ([], c)) (members line close []) = members line close [] c :=
    followedBy_nil c _
  rwa [hfirst] at hreturns

/-! ## The statements of a label -/

/-- Reads the statements of a label and puts each into the tree. -/
def labelLoop : Loop (Nesting × Cursor) (Nesting × Cursor) where
  round s :=
    .attempt (skipBlank s.2) fun c =>
      if c.rest.isEmpty then .returns (.ok (s.1, c))
      else
        let (keyword, d) := c.takeUntil endsKeyword
        if keyword.isEmpty then
          .returns (.error ⟨.expectedKeyword (d.rest.headD ' '), c.pos.line⟩)
        else
          .attempt (Statement.body? (String.ofList keyword) c.pos (skipSpace d)) fun
            | none => .returns (.ok (s.1, skipSpace d))
            | some (statement, e) => .attempt (s.1.add statement) fun n => .again (n, e)
  place := Prod.snd
  next := Prod.snd

/-- The tree with the statements from the cursor on. -/
def Nesting.addFrom (n : Nesting) (c : Cursor) : Except Fault Nesting :=
  match n.addAll (Odl.statements c).1 with
  | .error e => .error e
  | .ok n' =>
    match (Odl.statements c).2 with
    | some e => .error e
    | none => .ok n'

/-- Reading and adding, one statement at a time. -/
theorem Nesting.addFrom_eq (n : Nesting) (c : Cursor) : n.addFrom c =
    match Statement.next? c with
    | .error e => .error e
    | .ok none => .ok n
    | .ok (some (s, d)) =>
      match n.add s with
      | .error e => .error e
      | .ok n => n.addFrom d := by
  rw [Nesting.addFrom, statements_eq]
  rcases Statement.next? c with e | _ | ⟨s, d⟩
  · rfl
  · rfl
  · simp only [Nesting.addAll]
    cases n.add s <;> rfl

/-- A round reads the next statement and adds it. -/
theorem round_labelLoop (n : Nesting) (c : Cursor) :
    match Statement.next? c with
    | .error e => labelLoop.round (n, c) = .returns (.error e)
    | .ok none => ∃ d, c.LeadsTo d ∧ labelLoop.round (n, c) = .returns (.ok (n, d))
    | .ok (some (s, d)) =>
      labelLoop.round (n, c) = .attempt (n.add s) fun n => .again (n, d) := by
  simp only [labelLoop, Statement.next?]
  cases hskip : skipBlank c with
  | error e => rfl
  | ok start =>
    have hstart : c.LeadsTo start := (ahead_skipBlank c).leadsTo hskip
    simp only [Round.attempt_ok]
    by_cases hrest : start.rest.isEmpty = true
    · simp only [if_pos hrest]
      exact ⟨start, hstart, rfl⟩
    · by_cases hkeyword : (start.takeUntil endsKeyword).1.isEmpty = true
      · simp only [if_neg hrest, if_pos hkeyword]
      · simp only [if_neg hrest, if_neg hkeyword]
        cases Statement.body? (String.ofList (start.takeUntil endsKeyword).1) start.pos
            (skipSpace (start.takeUntil endsKeyword).2) with
        | error e => rfl
        | ok r =>
          cases r with
          | none =>
            exact ⟨_, (hstart.trans (start.leadsTo_takeUntil _)).trans (leadsTo_skipSpace _), rfl⟩
          | some r => rfl

/-- Each round over a label reads a whole statement. -/
theorem proceeds_labelLoop : labelLoop.Proceeds where
  again {s s'} h := by
    have hround := round_labelLoop s.1 s.2
    split at hround
    · cases hround.symm.trans h
    · obtain ⟨d, -, hround⟩ := hround
      cases hround.symm.trans h
    · rename_i statement d hnext
      obtain ⟨n, -, ⟨⟩⟩ := Round.attempt_eq_again_iff.mp (hround.symm.trans h)
      obtain ⟨start, hstart, -, -, hlead, -⟩ := (next?_eq_some_iff.mp hnext).stands
      exact ⟨hstart.trans hlead, next?_length hnext⟩
  returns {s x} h := by
    have hround := round_labelLoop s.1 s.2
    split at hround
    · cases hround.symm.trans h
    · obtain ⟨d, hd, hround⟩ := hround
      cases hround.symm.trans h
      exact hd
    · obtain ⟨n, -, ⟨⟩⟩ := Round.attempt_eq_ok_iff.mp (hround.symm.trans h)

/-- What is still to add is the same before and after a round. -/
theorem keeps_labelLoop :
    labelLoop.Keeps (fun r => r.map Prod.fst) fun s => s.1.addFrom s.2 := by
  rintro ⟨n, c⟩
  have hround := round_labelLoop n c
  dsimp only
  rw [Nesting.addFrom_eq]
  split at hround
  · rw [hround]
    rfl
  · obtain ⟨d, -, hround⟩ := hround
    rw [hround]
    rfl
  · rename_i statement d _
    rw [hround]
    cases n.add statement <;> rfl

/-- A label is read statement by statement, each added as it comes. -/
theorem readLabel_eq (text : String) :
    readLabel text = (Nesting.empty.addFrom (.ofString text)).bind Nesting.finish := by
  simp only [readLabel, Nesting.addFrom]
  cases Nesting.empty.addAll (Odl.statements (.ofString text)).1 with
  | error e => rfl
  | ok n => cases (Odl.statements (.ofString text)).2 <;> rfl

/-! ## Labels -/

/-- **The reading always makes progress.** In every text, a round of any of the loops returns or
moves the position forward by at least one character, and the position does not pass the end of the
text. What is read of sets, blanks, comments, strings, units and other runs of characters is what
these loops return, after at most as many rounds as there are characters left and one more. So the
loop over the statements, which after `k` rounds is behind `k` characters or more, returns after at
most as many rounds as the text has characters and one more, and what it returns decides whether the
text is a label. -/
theorem advances_readLabel (text : String) :
    (labelLoop.Advances text ∧ (∀ line close, (setLoop line close).Advances text) ∧
      blankLoop.Advances text ∧ (∀ line, (commentLoop line).Advances text) ∧
      (∀ quote line, (stringLoop quote line).Advances text) ∧
      (∀ line, (unitLoop line).Advances text) ∧ ∀ stop, (plainLoop stop).Advances text) ∧
    (∀ c : Cursor,
      (∀ line close, (setLoop line close).Returns ([], c) (members line close [] c)) ∧
      blankLoop.Returns c (skipBlank c) ∧
      (commentLoop c.pos.line).Returns ([], c.drop 2) (comment c) ∧
      (∀ quote, (stringLoop quote c.pos.line).Returns ([], c.drop 1) (quoted quote c)) ∧
      (unitLoop c.pos.line).Returns ([], c.drop 1) (unit c) ∧
      ∀ stop, (plainLoop stop).Returns ([], c) (.ok (c.takeUntil stop))) ∧
    (∀ k s, labelLoop.rounds k (.empty, .ofString text) = .again s →
      ∃ n, k ≤ n ∧ s.2.Behind text n) ∧
    ∃ r, labelLoop.rounds (text.length + 1) (.empty, .ofString text) = .returns r ∧
      (∀ s, r = .ok s → ∃ n, s.2.Behind text n) ∧
      readLabel text = r.bind fun s => s.1.finish := by
  have hbehind := Cursor.behind_ofString text
  refine ⟨⟨proceeds_labelLoop.advances text, fun line close => ?_, proceeds_blankLoop.advances text,
    fun line => ?_, fun quote line => ?_, fun line => ?_, fun stop => ?_⟩,
    fun c => ⟨fun line close => returns_setLoop line close c, returns_blankLoop c,
      returns_commentLoop c, fun quote => returns_stringLoop quote c, returns_unitLoop c,
      fun stop => returns_plainLoop stop c⟩, fun k s hs => ?_, ?_⟩
  · exact (proceeds_setLoop line close).advances text
  · exact (proceeds_commentLoop line).advances text
  · exact (proceeds_stringLoop quote line).advances text
  · exact (proceeds_unitLoop line).advances text
  · exact (proceeds_plainLoop stop).advances text
  · obtain ⟨hlead, hle⟩ := proceeds_labelLoop.of_again hs
    have hle' : k + s.2.rest.length ≤ (Cursor.ofString text).rest.length := hle
    exact ⟨_, by omega, hbehind.of_leadsTo hlead⟩
  · have hlength : (Cursor.ofString text).rest.length < text.length + 1 :=
      Nat.lt_succ_of_le String.length_toList.le
    obtain ⟨r, hr⟩ := proceeds_labelLoop.exists_rounds (.empty, .ofString text) hlength
    refine ⟨r, hr, fun s hs => ?_, ?_⟩
    · have hlead := proceeds_labelLoop.leadsTo_next (hs ▸ hr)
      exact ⟨_, hbehind.of_leadsTo hlead⟩
    · have hview := keeps_labelLoop.view_eq hr
      rw [readLabel_eq, ← hview]
      cases r <;> rfl

end ArchiveLabels.Odl
