import ArchiveLabels.Proofs.FileSystem.Blank

/-!
# Actions on file systems of one shape

Where there is room for whatever is written, it depends on the shape of the file system alone
whether a file or a directory can be made, and so does the shape that is left. `Action.Matches` says
of two actions that they have the same result on such file systems that are alike, and leave such. It
is closed under the ways in which actions are put together, and holds of any two writes to one path.
-/

namespace ArchiveLabels

/-- The file systems are alike, and there is room for whatever is written. -/
structure FileSystem.Roomy (fs gs : FileSystem) : Prop extends Alike fs gs where
  limitless : fs.Unlimited

theorem FileSystem.Unlimited.change {fs : FileSystem} (h : fs.Unlimited) (place : List String)
    (new : Option Entry) : (fs.change place new).Unlimited :=
  fun q => by rw [room_change, h]

open FileSystem (Alike Roomy)

namespace Action

variable {ε ε' α β : Type}

/-- On file systems that are alike the actions have the same result, and leave file systems that are
alike, if there is room. -/
def Matches (x y : Action ε α) : Prop :=
  ∀ fs gs, Roomy fs gs → (y.run gs).1 = (x.run fs).1 ∧ Roomy (x.run fs).2 (y.run gs).2

theorem Matches.pure (a : α) : Matches (Pure.pure a : Action ε α) (Pure.pure a) :=
  fun _ _ h => ⟨rfl, h⟩

/-- Actions that match, one behind the other, match : the second starts from file systems alike.
-/
theorem Matches.bind {x y : Action ε α} {f g : α → Action ε β} (hx : Matches x y)
    (hf : ∀ a, Matches (f a) (g a)) : Matches (x >>= f) (y >>= g) := by
  intro fs gs h
  obtain ⟨hr, ha⟩ := hx fs gs h
  rw [run_bind, run_bind]
  rcases hfs : x.run fs with ⟨r, fs'⟩
  rcases hgs : y.run gs with ⟨r', gs'⟩
  rw [hfs, hgs] at hr ha
  obtain rfl : r' = r := hr
  cases r' with
  | error e => exact ⟨rfl, ha⟩
  | ok a => exact hf a fs' gs' ha

/-- Handlers that match keep a match. -/
theorem Matches.tryCatch {x y : Action ε α} {f g : ε → Action ε α} (hx : Matches x y)
    (hf : ∀ e, Matches (f e) (g e)) : Matches (tryCatch x f) (tryCatch y g) := by
  intro fs gs h
  obtain ⟨hr, ha⟩ := hx fs gs h
  rw [run_tryCatch, run_tryCatch]
  rcases hfs : x.run fs with ⟨r, fs'⟩
  rcases hgs : y.run gs with ⟨r', gs'⟩
  rw [hfs, hgs] at hr ha
  obtain rfl : r' = r := hr
  cases r' with
  | error e => exact hf e fs' gs' ha
  | ok a => exact ⟨rfl, ha⟩

theorem Matches.adapt {x y : Action ε α} (h : Matches x y) (f : ε → ε') :
    Matches (x.adapt f) (y.adapt f) := by
  intro fs gs ha
  obtain ⟨hr, ha⟩ := h fs gs ha
  rw [run_adapt, run_adapt, hr]
  exact ⟨rfl, ha⟩

end Action

namespace FileSystem

open ArchiveLabels.Action (Matches)

variable {fs gs : FileSystem}

theorem Alike.hasDirectory (h : Alike fs gs) (p : Path) : gs.hasDirectory p = fs.hasDirectory p := by
  unfold FileSystem.hasDirectory
  cases hf : fs.entry? p with
  | error e => rw [h.entry?_error hf]
  | ok e =>
    obtain ⟨e', hg, hb⟩ := h.entry?_ok hf
    rw [hg]
    cases e with
    | file content t =>
      obtain ⟨content', t', rfl⟩ := Entry.exists_file_of_blank hb
      rfl
    | directory d =>
      obtain ⟨d', rfl, -⟩ := Entry.exists_directory_of_blank hb
      rfl
    | link target => rw [Entry.eq_link_of_blank hb]

/-- Two writes to the one path match, whatever they write. -/
theorem matches_writeWith (p : Path) (content content' : ByteArray → ByteArray) :
    Matches (writeWith p content) (writeWith p content') := by
  intro fs gs h
  -- The clocks differ, but that is nothing that file systems are alike in.
  have changed (place : List String) (bytes bytes' : ByteArray) :
      Roomy { fs.change place (some (.file bytes fs.clock)) with clock := fs.clock.next }
        { gs.change place (some (.file bytes' gs.clock)) with clock := gs.clock.next } := by
    have hc : Alike (fs.change place (some (.file bytes fs.clock)))
        (gs.change place (some (.file bytes' gs.clock))) :=
      h.change (by simp only [Entry.blank]) place
    exact ⟨⟨hc.here, hc.room, hc.blank⟩, h.limitless.change _ _⟩
  rw [run_writeWith, run_writeWith]
  rcases hl : fs.locate true p with e | ⟨place, ⟨bytes, t⟩ | d | target⟩ | ⟨place, name, slash⟩
  · rw [h.locate_error hl]
    exact ⟨rfl, h⟩
  · obtain ⟨e', hg, he⟩ := h.found hl
    obtain ⟨bytes', t', rfl⟩ := Entry.exists_file_of_blank he
    rw [hg]
    exact ⟨rfl, changed place _ _⟩
  · obtain ⟨e', hg, he⟩ := h.found hl
    obtain ⟨d', rfl, -⟩ := Entry.exists_directory_of_blank he
    rw [hg]
    exact ⟨rfl, h⟩
  · obtain ⟨e', hg, he⟩ := h.found hl
    rw [hg, Entry.eq_link_of_blank he]
    exact ⟨rfl, h⟩
  · rw [h.vacant hl]
    cases slash with
    | false => exact ⟨rfl, changed (name :: place) _ _⟩
    | true => exact ⟨rfl, h⟩

theorem matches_append (p : Path) (bytes bytes' : ByteArray) :
    Matches (append p bytes) (append p bytes') := by
  intro fs gs h
  rw [run_append_of_unlimited h.limitless, run_append_of_unlimited (h.toAlike.unlimited h.limitless)]
  exact matches_writeWith p _ _ fs gs h

/-- Two writes to one path match, whatever they write. -/
theorem matches_write (p : Path) (content content' : ByteArray) :
    Matches (write p content) (write p content') :=
  .bind (matches_writeWith p _ _) fun _ => matches_append p content content'

theorem matches_makeDirectory (p : Path) : Matches (makeDirectory p) (makeDirectory p) := by
  intro fs gs h
  rw [makeDirectory, Action.run_get_bind, Action.run_get_bind]
  rcases hl : fs.locate false (withoutSlashes p) with e | ⟨place, e⟩ | ⟨place, name, slash⟩
  · rw [h.locate_error hl]
    exact ⟨rfl, h⟩
  · obtain ⟨e', hg, -⟩ := h.found hl
    rw [hg]
    exact ⟨rfl, h⟩
  · rw [h.vacant hl]
    exact ⟨rfl, h.change rfl (name :: place), h.limitless.change _ _⟩

theorem matches_unless_hasDirectory (p : Path) (e : FileError) :
    Matches (do unless (← get).hasDirectory p do throw e : Action FileError Unit)
      (do unless (← get).hasDirectory p do throw e) := by
  intro fs gs h
  rw [Action.run_get_bind, Action.run_get_bind, h.hasDirectory]
  split
  · exact ⟨rfl, h⟩
  · exact ⟨rfl, h⟩

/-- Missing directories are made alike in file systems alike. -/
theorem matches_makeFirst : ∀ dirs : List Path, Matches (makeFirst dirs) (makeFirst dirs)
  | [] => .pure ()
  | p :: parents => by
    rw [makeFirst]
    split
    · exact .pure ()
    · refine (matches_makeDirectory p).tryCatch fun e => ?_
      split
      · refine (matches_makeFirst parents).bind fun _ => ?_
        exact (matches_makeDirectory p).tryCatch fun e => matches_unless_hasDirectory p e
      · exact matches_unless_hasDirectory p e

theorem matches_makeParent (p : Path) : Matches (makeParent p) (makeParent p) := by
  unfold makeParent
  split
  · split
    · exact .pure ()
    · exact (matches_makeFirst _).adapt _
  · exact .pure ()

theorem matches_print {ε : Type} (text text' : String) :
    Matches (print text : Action ε Unit) (print text') :=
  fun _ _ h => ⟨rfl, ⟨h.here, h.room, h.blank⟩, h.limitless⟩

end FileSystem

end ArchiveLabels
