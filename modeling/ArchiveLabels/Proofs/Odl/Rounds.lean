import ArchiveLabels.Proofs.Odl.Passage

/-!
# Loops, round by round

Reading a legacy label is a matter of loops inside loops. A `Loop` says what one round does : it goes
on to another round or returns. `Loop.Proceeds` is what all of them have in common, that a round
returns or moves on by at least one character. Such a loop returns after at most as many rounds as
there are characters left and one more (`Loop.Proceeds.exists_rounds`), and what it returns is told
by any function whose value no round changes (`Loop.Proceeds.returns_of_keeps`).

Here are the loops over single characters : runs (`runLoop`), with strings, units and comments among
them, and blanks with the comments between them (`blankLoop`).
-/

namespace ArchiveLabels

open Text

/-! ## Places behind a number of characters -/

namespace Text.Cursor

variable {text : String} {n : Nat} {c d e : Cursor}

/-- The cursor stands behind the first `n` characters of the text, which has that many. -/
def Behind (c : Cursor) (text : String) (n : Nat) : Prop :=
  n ≤ text.length ∧ c = (ofString text).drop n

/-- Reading at least one character leads to the cursor `d`. -/
def LeadsOn (c d : Cursor) : Prop :=
  c.LeadsTo d ∧ d.rest.length < c.rest.length

theorem behind_ofString (text : String) : (ofString text).Behind text 0 :=
  ⟨Nat.zero_le _, rfl⟩

theorem Behind.of_leadsTo (h : c.Behind text n) (hd : c.LeadsTo d) :
    d.Behind text (n + (c.rest.length - d.rest.length)) := by
  obtain ⟨hn, rfl⟩ := h
  obtain ⟨run, hrest, hpos⟩ := hd
  have hdrop : text.toList.drop n = run ++ d.rest := hrest
  have hlength : text.length - n = run.length + d.rest.length := by
    rw [← String.length_toList, ← List.length_drop, hdrop, List.length_append]
  have hrun : ((ofString text).drop n).rest.length - d.rest.length = run.length := by
    rw [hrest, List.length_append, Nat.add_sub_cancel]
  rw [hrun]
  refine ⟨by omega, ?_⟩
  have hrest' : d.rest = text.toList.drop (n + run.length) := by
    rw [← List.drop_drop, hdrop, List.drop_left]
  have hpos' : d.pos = Position.start.advance (text.toList.take (n + run.length)) := by
    rw [List.take_add, hdrop, List.take_left, Position.advance_append]
    exact hpos
  exact congrArg₂ Cursor.mk hrest' hpos'

/-- A cursor that moves on stands further behind the start of the text. -/
theorem Behind.of_leadsOn (h : c.Behind text n) (hd : c.LeadsOn d) :
    ∃ n', n < n' ∧ d.Behind text n' := by
  have hlt := hd.2
  exact ⟨_, by omega, h.of_leadsTo hd.1⟩

theorem leadsOn_drop {k : Nat} (hk : 0 < k) (hc : c.rest ≠ []) : c.LeadsOn (c.drop k) := by
  have hlength := List.length_pos_iff.mpr hc
  have hdrop := Odl.drop_length c k
  exact ⟨c.leadsTo_drop k, by omega⟩

/-- What is left to read never grows. -/
theorem LeadsTo.length_le (h : c.LeadsTo d) : d.rest.length ≤ c.rest.length := by
  obtain ⟨run, hrest, -⟩ := h
  rw [hrest, List.length_append]
  omega

theorem LeadsTo.trans_leadsOn (h : c.LeadsTo d) (h' : d.LeadsOn e) : c.LeadsOn e :=
  ⟨h.trans h'.1, Nat.lt_of_lt_of_le h'.2 h.length_le⟩

theorem LeadsOn.trans_leadsTo (h : c.LeadsOn d) (h' : d.LeadsTo e) : c.LeadsOn e :=
  ⟨h.1.trans h', Nat.lt_of_le_of_lt h'.length_le h.2⟩

end Text.Cursor

namespace Odl

variable {σ α β γ : Type}

/-! ## Rounds -/

/-- What a round of a loop comes to. -/
inductive Round (σ α : Type) where
  /-- Another round, from the state. -/
  | again (s : σ)
  /-- The end of the loop, with what it returns. -/
  | returns (r : Except Fault α)

namespace Round

/-- Goes on with what has been read. If it could not be read, the loop returns the fault. -/
def attempt (r : Except Fault β) (go : β → Round σ α) : Round σ α :=
  match r with
  | .ok x => go x
  | .error e => .returns (.error e)

variable {r : Except Fault β} {go : β → Round σ α}

@[simp]
theorem attempt_ok (y : β) : attempt (.ok y) go = go y :=
  rfl

@[simp]
theorem attempt_error (e : Fault) : attempt (.error e) go = .returns (.error e) :=
  rfl

/-- An attempt goes round again only when what it tried succeeded. -/
theorem attempt_eq_again_iff {s : σ} :
    attempt r go = .again s ↔ ∃ y, r = .ok y ∧ go y = .again s := by
  cases r with
  | ok y => exact ⟨fun h => ⟨y, rfl, h⟩, fun ⟨_, hy, h⟩ => Except.ok.inj hy ▸ h⟩
  | error e => exact ⟨nofun, fun ⟨_, hy, _⟩ => nomatch hy⟩

theorem attempt_eq_ok_iff {x : α} :
    attempt r go = .returns (.ok x) ↔ ∃ y, r = .ok y ∧ go y = .returns (.ok x) := by
  cases r with
  | ok y => exact ⟨fun h => ⟨y, rfl, h⟩, fun ⟨_, hy, h⟩ => Except.ok.inj hy ▸ h⟩
  | error e => exact ⟨nofun, fun ⟨_, hy, _⟩ => nomatch hy⟩

end Round

/-- A loop of the reader : what a round does, and where states and results stand in the text. -/
structure Loop (σ α : Type) where
  /-- A round from a state. -/
  round : σ → Round σ α
  /-- Where a state stands. -/
  place : σ → Cursor
  /-- Where the reading goes on behind a result. -/
  next : α → Cursor

namespace Loop

variable {l : Loop σ α} {s s' : σ} {n : Nat} {x : α} {text : String}

/-- What at most `n` rounds come to. -/
def rounds (l : Loop σ α) : Nat → σ → Round σ α
  | 0, s => .again s
  | n + 1, s =>
    match l.round s with
    | .again s' => l.rounds n s'
    | .returns r => .returns r

/-- The loop that starts in `s` returns `r` after at most as many rounds as there are characters
left and one more. -/
def Returns (l : Loop σ α) (s : σ) (r : Except Fault α) : Prop :=
  l.rounds ((l.place s).rest.length + 1) s = .returns r

/-- A round moves on by at least one character or returns, and never goes back. -/
structure Proceeds (l : Loop σ α) : Prop where
  again : ∀ {s s'}, l.round s = .again s' → (l.place s).LeadsOn (l.place s')
  returns : ∀ {s x}, l.round s = .returns (.ok x) → (l.place s).LeadsTo (l.next x)

/-- In the text, a round moves the position strictly forward or returns, and the position does not
pass the end of the text. -/
structure Advances (l : Loop σ α) (text : String) : Prop where
  again : ∀ {s s' n}, (l.place s).Behind text n → l.round s = .again s' →
    ∃ n', n < n' ∧ (l.place s').Behind text n'
  returns : ∀ {s x n}, (l.place s).Behind text n → l.round s = .returns (.ok x) →
    ∃ n', n ≤ n' ∧ (l.next x).Behind text n'

/-- No round changes the value of `f`, and the last one returns it, seen through `view`. -/
def Keeps (l : Loop σ α) (view : Except Fault α → γ) (f : σ → γ) : Prop :=
  ∀ s, f s =
    match l.round s with
    | .again s' => f s'
    | .returns r => view r

/-- A loop that proceeds advances over every text : each round that goes on stands further
behind its start. -/
theorem Proceeds.advances (h : l.Proceeds) (text : String) : l.Advances text where
  again hs hround := hs.of_leadsOn (h.again hround)
  returns hs hround := ⟨_, Nat.le_add_right _ _, hs.of_leadsTo (h.returns hround)⟩

/-- As long as the loop goes on, every round takes one character or more. -/
theorem Proceeds.of_again (h : l.Proceeds) (hr : l.rounds n s = .again s') :
    (l.place s).LeadsTo (l.place s') ∧ n + (l.place s').rest.length ≤ (l.place s).rest.length := by
  induction n generalizing s with
  | zero =>
    cases hr
    exact ⟨.refl _, by omega⟩
  | succ n ih =>
    unfold rounds at hr
    split at hr
    · rename_i hround
      obtain ⟨hlead, hlt⟩ := h.again hround
      obtain ⟨hlead', hle⟩ := ih hr
      exact ⟨hlead.trans hlead', by omega⟩
    · cases hr

/-- Where a loop stops lies ahead of where it started. -/
theorem Proceeds.leadsTo_next (h : l.Proceeds) (hr : l.rounds n s = .returns (.ok x)) :
    (l.place s).LeadsTo (l.next x) := by
  induction n generalizing s with
  | zero => cases hr
  | succ n ih =>
    unfold rounds at hr
    split at hr
    · rename_i hround
      exact (h.again hround).1.trans (ih hr)
    · rename_i hround
      cases hr
      exact h.returns hround

/-- There are not enough characters for the loop to go on for ever. -/
theorem Proceeds.exists_rounds (h : l.Proceeds) (s : σ) (hn : (l.place s).rest.length < n) :
    ∃ r, l.rounds n s = .returns r := by
  cases hr : l.rounds n s with
  | again s' =>
    have hle := (h.of_again hr).2
    omega
  | returns r => exact ⟨r, rfl⟩

/-- What every round keeps holds of the result, after however many rounds. -/
theorem Keeps.view_eq {view : Except Fault α → γ} {f : σ → γ} {r : Except Fault α}
    (hf : l.Keeps view f) (hr : l.rounds n s = .returns r) : view r = f s := by
  induction n generalizing s with
  | zero => cases hr
  | succ n ih =>
    unfold rounds at hr
    rw [hf s]
    cases hround : l.round s with
    | again s' =>
      rw [hround] at hr
      exact ih hr
    | returns r' =>
      rw [hround] at hr
      cases hr
      rfl

/-- A loop that proceeds and keeps `f` returns `f` of its state. -/
theorem Proceeds.returns_of_keeps (h : l.Proceeds) {f : σ → Except Fault α} (hf : l.Keeps id f)
    (s : σ) : l.Returns s (f s) := by
  obtain ⟨r, hr⟩ := h.exists_rounds s (Nat.lt_succ_self _)
  have hview : r = f s := hf.view_eq hr
  rw [Returns, hr, hview]

end Loop

/-! ## Runs of characters -/

/-- Reads characters up to where `stop` holds or the text ends; `close` makes the result of them and
of the cursor there. -/
def runLoop (stop : List Char → Bool) (close : List Char → Cursor → Except Fault α)
    (next : α → Cursor) : Loop (List Char × Cursor) α where
  round s :=
    match s.2.rest with
    | [] => .returns (close s.1 s.2)
    | x :: xs =>
      if stop (x :: xs) then .returns (close s.1 s.2) else .again (s.1 ++ [x], s.2.drop 1)
  place := Prod.snd
  next := next

/-- Reads characters up to where `stop` holds, as for keywords, bare values and spaces. -/
def plainLoop (stop : List Char → Bool) : Loop (List Char × Cursor) (List Char × Cursor) :=
  runLoop stop (fun run c => .ok (run, c)) Prod.snd

/-- Reads the characters of a string that starts in the line. -/
def stringLoop (quote : Char) (line : Nat) : Loop (List Char × Cursor) (String × Cursor) :=
  runLoop (startsWith quote)
    (fun text c =>
      if c.rest.isEmpty then .error ⟨.unterminatedString, line⟩
      else .ok (String.ofList text, c.drop 1))
    Prod.snd

/-- Reads the characters of a unit that stands in the line. -/
def unitLoop (line : Nat) : Loop (List Char × Cursor) (String × Cursor) :=
  runLoop (fun cs => startsWith '>' cs || startsWith '\n' cs)
    (fun text c =>
      if startsWith '>' c.rest then .ok (trim (String.ofList text), c.drop 1)
      else .error ⟨.unterminatedUnit, line⟩)
    Prod.snd

/-- A comment ends here. -/
def endsComment : List Char → Bool
  | '*' :: '/' :: _ => true
  | _ => false

/-- Passes over the characters of a comment that starts in the line. -/
def commentLoop (line : Nat) : Loop (List Char × Cursor) Cursor :=
  runLoop endsComment
    (fun _ c => if c.rest.isEmpty then .error ⟨.unterminatedComment, line⟩ else .ok (c.drop 2)) id

variable {stop : List Char → Bool} {close : List Char → Cursor → Except Fault α}
  {next : α → Cursor} {line : Nat}

/-- A run taken character by character proceeds, wherever it stops. -/
theorem proceeds_runLoop (hclose : ∀ run c x, close run c = .ok x → c.LeadsTo (next x)) :
    (runLoop stop close next).Proceeds where
  again {s s'} h := by
    simp only [runLoop] at h
    split at h
    · cases h
    · rename_i hrest
      have hne : s.2.rest ≠ [] := by simp [hrest]
      split at h
      · cases h
      · cases h
        exact Cursor.leadsOn_drop Nat.one_pos hne
  returns {s x} h := by
    have hx : close s.1 s.2 = .ok x := by
      simp only [runLoop] at h
      split at h
      · exact Round.returns.inj h
      · split at h
        · exact Round.returns.inj h
        · cases h
    exact hclose _ _ _ hx

/-- Each character taken leaves the run behind it the same. -/
theorem keeps_runLoop : (runLoop stop close next).Keeps id
    fun s => close (s.1 ++ (s.2.takeUntil stop).1) (s.2.takeUntil stop).2 := by
  rintro ⟨run, rest, pos⟩
  cases rest with
  | nil => simp [runLoop, Cursor.takeUntil, Cursor.takeUntil.go]
  | cons x xs =>
    by_cases hstop : stop (x :: xs) = true
    · simp [runLoop, Cursor.takeUntil, Cursor.takeUntil.go, hstop]
    · simp [runLoop, Cursor.takeUntil, Cursor.takeUntil.go, hstop, Cursor.drop_one]

theorem proceeds_plainLoop (stop : List Char → Bool) : (plainLoop stop).Proceeds :=
  proceeds_runLoop fun run c x h => by
    cases h
    exact .refl c

/-- The loop over a plain run returns what `takeUntil` takes. -/
theorem returns_plainLoop (stop : List Char → Bool) (c : Cursor) :
    (plainLoop stop).Returns ([], c) (.ok (c.takeUntil stop)) :=
  (proceeds_plainLoop stop).returns_of_keeps keeps_runLoop ([], c)

theorem proceeds_stringLoop (quote : Char) (line : Nat) : (stringLoop quote line).Proceeds :=
  proceeds_runLoop fun run c x h => by
    split at h
    · cases h
    · cases h
      exact c.leadsTo_drop 1

/-- The loop over a quoted string returns what `quoted` reads. -/
theorem returns_stringLoop (quote : Char) (c : Cursor) :
    (stringLoop quote c.pos.line).Returns ([], c.drop 1) (quoted quote c) :=
  (proceeds_stringLoop quote c.pos.line).returns_of_keeps keeps_runLoop ([], c.drop 1)

theorem proceeds_unitLoop (line : Nat) : (unitLoop line).Proceeds :=
  proceeds_runLoop fun run c x h => by
    split at h
    · cases h
      exact c.leadsTo_drop 1
    · cases h

theorem returns_unitLoop (c : Cursor) :
    (unitLoop c.pos.line).Returns ([], c.drop 1) (unit c) :=
  (proceeds_unitLoop c.pos.line).returns_of_keeps keeps_runLoop ([], c.drop 1)

/-! ## Blanks and comments -/

/-- Passes over the comment that starts at the cursor. -/
def comment (c : Cursor) : Except Fault Cursor :=
  let behind := ((c.drop 2).takeUntil endsComment).2
  if behind.rest.isEmpty then .error ⟨.unterminatedComment, c.pos.line⟩ else .ok (behind.drop 2)

/-- Passes over blanks and comments. -/
def blankLoop : Loop Cursor Cursor where
  round c :=
    match c.rest with
    | [] => .returns (.ok c)
    | x :: xs =>
      if isBlank x then .again (c.drop 1)
      else if startsComment (x :: xs) then .attempt (comment c) .again
      else .returns (.ok c)
  place := id
  next := id

theorem proceeds_commentLoop (line : Nat) : (commentLoop line).Proceeds :=
  proceeds_runLoop fun run c x h => by
    split at h
    · cases h
    · cases h
      exact c.leadsTo_drop 2

theorem returns_commentLoop (c : Cursor) :
    (commentLoop c.pos.line).Returns ([], c.drop 2) (comment c) :=
  (proceeds_commentLoop c.pos.line).returns_of_keeps keeps_runLoop ([], c.drop 2)

theorem leadsTo_comment {c d : Cursor} (h : comment c = .ok d) : (c.drop 2).LeadsTo d := by
  simp only [comment] at h
  split at h
  · cases h
  · cases h
    exact (Cursor.leadsTo_takeUntil _ _).trans (Cursor.leadsTo_drop _ 2)

theorem proceeds_blankLoop : blankLoop.Proceeds where
  again {c d} h := by
    simp only [blankLoop] at h
    split at h
    · cases h
    · rename_i hrest
      have hne : c.rest ≠ [] := by simp [hrest]
      split at h
      · cases h
        exact Cursor.leadsOn_drop Nat.one_pos hne
      · split at h
        · obtain ⟨e, he, ⟨⟩⟩ := Round.attempt_eq_again_iff.mp h
          exact (Cursor.leadsOn_drop Nat.two_pos hne).trans_leadsTo (leadsTo_comment he)
        · cases h
  returns {c d} h := by
    simp only [blankLoop] at h
    split at h
    · cases h
      exact .refl c
    · split at h
      · cases h
      · split at h
        · obtain ⟨e, -, ⟨⟩⟩ := Round.attempt_eq_ok_iff.mp h
        · cases h
          exact .refl c

/-- Inside a comment, blanks and comments are skipped from its end on. -/
theorem skipBlankFrom_comment (line : Nat) (cs : List Char) (p : Position) :
    skipBlankFrom (some line) cs p =
      let behind := (Cursor.takeUntil endsComment ⟨cs, p⟩).2
      if behind.rest.isEmpty then .error ⟨.unterminatedComment, line⟩
      else skipBlank (behind.drop 2) := by
  induction cs generalizing p with
  | nil => rfl
  | cons c cs ih =>
    by_cases hend : endsComment (c :: cs) = true
    · unfold endsComment at hend
      split at hend
      · rename_i hcs
        obtain ⟨rfl, rfl⟩ := List.cons.inj hcs
        rfl
      · cases hend
    · have hinside : ∀ ds, c :: cs ≠ '*' :: '/' :: ds := by
        rintro ds hcs
        rw [hcs] at hend
        exact hend rfl
      rw [skipBlankFrom_some_cons hinside, ih]
      simp [Cursor.takeUntil, Cursor.takeUntil.go, hend]

theorem keeps_blankLoop : blankLoop.Keeps id skipBlank := by
  rintro ⟨_ | ⟨x, xs⟩, p⟩
  · rfl
  · by_cases hblank : isBlank x = true
    · simp only [blankLoop, if_pos hblank]
      exact skipBlank_cons_blank hblank xs p
    · by_cases hstart : startsComment (x :: xs) = true
      · simp only [blankLoop, if_neg hblank, if_pos hstart]
        unfold startsComment at hstart
        split at hstart
        · rename_i cs hcs
          obtain ⟨rfl, rfl⟩ := List.cons.inj hcs
          have hinside : skipBlank ⟨'/' :: '*' :: cs, p⟩ =
            skipBlankFrom (some p.line) cs ((p.after '/').after '*') := rfl
          have hdrop : Cursor.drop ⟨'/' :: '*' :: cs, p⟩ 2 = ⟨cs, (p.after '/').after '*'⟩ := rfl
          rw [hinside, skipBlankFrom_comment]
          simp only [comment, hdrop]
          split <;> rfl
        · cases hstart
      · simp only [blankLoop, if_neg hblank, if_neg hstart]
        exact skipBlank_cons_of_ne (by simpa using hblank) (by simpa using hstart)

/-- The loop over blank text returns where `skipBlank` ends. -/
theorem returns_blankLoop (c : Cursor) : blankLoop.Returns c (skipBlank c) :=
  proceeds_blankLoop.returns_of_keeps keeps_blankLoop c

end Odl

end ArchiveLabels
