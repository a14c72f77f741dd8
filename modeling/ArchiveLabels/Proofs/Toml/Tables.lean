import ArchiveLabels.Toml.Reader
import ArchiveLabels.Proofs.Json.Layers

/-!
# What TOML texts denote

No table in what a TOML text denotes has a key twice, and nothing in it is `null`
(`Toml.throughout_parse?`). A line is taken in by changing one table, so that all there is to see is
that the change leaves that table as it should be (`Toml.proper_changeAt`).
-/

namespace ArchiveLabels.Toml

open Json (putField)

variable {fields : Fields} {o : Origin} {n : Node} {j : Json} {key : String}

/-! ## Tables that are filled -/

theorem fieldsToJson_put (key : String) (n : Node) (fields : Fields) :
    fieldsToJson (fields.put key n) = putField (key, n.toJson) (fieldsToJson fields) := by
  induction fields with
  | nil => rfl
  | cons f fs ih =>
    obtain ⟨k, m⟩ := f
    by_cases hk : k = key
    · simp [Fields.put, hk, fieldsToJson, fieldToJson, putField]
    · simp [Fields.put, hk, fieldsToJson, fieldToJson, putField, ih]

theorem lookup_fieldsToJson (fields : Fields) (key : String) :
    (fieldsToJson fields).lookup key = (fields.lookup key).map Node.toJson := by
  induction fields with
  | nil => rfl
  | cons f fs ih =>
    obtain ⟨k, m⟩ := f
    rw [fieldsToJson, fieldToJson, List.lookup_cons, List.lookup_cons, ih]
    split <;> rfl

/-- What the node denotes has no key twice and nothing that is `null`. -/
def Node.Proper (n : Node) : Prop := n.toJson.Throughout Json.Proper

/-- The table of these keys is proper. -/
def Fields.Proper (fields : Fields) : Prop :=
  (Json.obj (fieldsToJson fields)).Throughout Json.Proper

theorem Fields.proper_nil : Fields.Proper [] :=
  Json.throughout_proper_empty

/-- Proper fields stay so under a put. -/
theorem Fields.Proper.put (h : fields.Proper) (hn : n.Proper) : (fields.put key n).Proper := by
  unfold Fields.Proper
  rw [fieldsToJson_put]
  exact Json.throughout_putField h hn

theorem Fields.Proper.lookup (h : fields.Proper) (hn : fields.lookup key = some n) : n.Proper :=
  Json.Throughout.lookup (k := key) h (by rw [lookup_fieldsToJson, hn]; rfl)

namespace Node

theorem proper_table_iff : (Node.table o fields).Proper ↔ fields.Proper := Iff.rfl

theorem proper_empty : Node.empty.Proper := Fields.proper_nil

theorem proper_tables (ts : List Node) : (Node.tables ts).Proper :=
  Json.throughout_proper rfl

/-- The change keeps tables proper. -/
def Keeps (f : Origin → Fields → Option Node) : Prop :=
  ∀ o fields n, f o fields = some n → fields.Proper → n.Proper

/-- A table that keys lead on from is changed at the first key. -/
theorem changeAt_cons {dotted : Bool} {f : Origin → Fields → Option Node} {k : String}
    {ks : List String} (h : changeAt dotted f (k :: ks) o fields = some n) :
    ∃ m, n = .table o (fields.put k m) ∧
      ((∃ p, fields.lookup k = none ∧ changeAt dotted f ks p [] = some m) ∨
        (∃ p gs, fields.lookup k = some (.table p gs) ∧ changeAt dotted f ks p gs = some m) ∨
        ∃ ts, m = .tables ts) := by
  unfold changeAt at h
  split at h
  · rename_i hk
    obtain ⟨m, hm, hn⟩ := Option.bind_eq_some_iff.mp h
    exact ⟨m, (Option.some.inj hn).symm, .inl ⟨_, hk, hm⟩⟩
  · rename_i p gs hk
    split at h
    · cases h
    · obtain ⟨m, hm, hn⟩ := Option.bind_eq_some_iff.mp h
      exact ⟨m, (Option.some.inj hn).symm, .inr (.inl ⟨p, gs, hk, hm⟩)⟩
  · obtain ⟨m, hm, hn⟩ := Option.bind_eq_some_iff.mp h
    obtain ⟨l, -, rfl⟩ := Option.map_eq_some_iff.mp hm
    exact ⟨_, (Option.some.inj hn).symm, .inr (.inr ⟨_, rfl⟩)⟩
  · cases h

/-- A change that keeps tables proper may be made behind any keys. -/
theorem keeps_changeAt (dotted : Bool) {f : Origin → Fields → Option Node} (hf : Keeps f)
    (keys : List String) : Keeps (changeAt dotted f keys) := by
  induction keys with
  | nil => exact hf
  | cons k ks ih =>
    intro o fields n h hp
    obtain ⟨m, rfl, ⟨p, -, hm⟩ | ⟨p, gs, hk, hm⟩ | ⟨ts, rfl⟩⟩ := changeAt_cons h
    · exact hp.put (ih p [] m hm Fields.proper_nil)
    · exact hp.put (ih p gs m hm (hp.lookup hk))
    · exact hp.put (proper_tables ts)

theorem keeps_state (key : String) : Keeps (state key) := by
  intro o fields n h hp
  unfold state at h
  split at h
  · obtain rfl := Option.some.inj h
    exact hp.put proper_empty
  · rename_i gs hk
    obtain rfl := Option.some.inj h
    exact hp.put (proper_table_iff.mpr (hp.lookup hk))
  · cases h

theorem keeps_stateNext (key : String) : Keeps (stateNext key) := by
  intro o fields n h hp
  unfold stateNext at h
  split at h
  · obtain rfl := Option.some.inj h
    exact hp.put (proper_tables _)
  · obtain rfl := Option.some.inj h
    exact hp.put (proper_tables _)
  · cases h

theorem keeps_give (dotted : Bool) (key : String) (hj : j.Throughout Json.Proper) :
    Keeps (give dotted key j) := by
  intro o fields n h hp
  unfold give at h
  split at h
  · cases h
  split at h
  · cases h
  · obtain rfl := Option.some.inj h
    exact Fields.Proper.put hp (n := .value j) hj

end Node

/-! ## Lines -/

/-- The line gives no key a value that has a key twice or holds `null`. -/
def Line.Proper : Line → Prop
  | .value _ _ j => j.Throughout Json.Proper
  | _ => True

namespace Filling

variable {t u : Filling} {l : Line} {ls : List Line}

/-- A change that keeps tables proper may be made anywhere. -/
theorem proper_changeAt {keys : List String} {f : Origin → Fields → Option Node}
    (hf : Node.Keeps f) (ht : t.root.Proper) (h : t.changeAt keys f = some n) : n.Proper := by
  unfold changeAt at h
  split at h
  · rename_i o fields hroot
    exact Node.keeps_changeAt false hf keys o fields n h (by rwa [hroot] at ht)
  · cases h

/-- One line keeps the document proper. -/
theorem proper_add (ht : t.root.Proper) (hl : l.Proper) (h : t.add l = some u) :
    u.root.Proper := by
  cases l with
  | header keys key =>
    obtain ⟨n, hn, hu⟩ := Option.bind_eq_some_iff.mp h
    exact Option.some.inj hu ▸ proper_changeAt (Node.keeps_state key) ht hn
  | listHeader keys key =>
    obtain ⟨n, hn, hu⟩ := Option.bind_eq_some_iff.mp h
    exact Option.some.inj hu ▸ proper_changeAt (Node.keeps_stateNext key) ht hn
  | value keys key j =>
    obtain ⟨n, hn, hu⟩ := Option.bind_eq_some_iff.mp h
    exact Option.some.inj hu ▸
      proper_changeAt (Node.keeps_changeAt true (Node.keeps_give _ key hl) keys) ht hn

/-- Every line added keeps the document proper, by induction on the lines. -/
theorem proper_foldlM (ht : t.root.Proper) (hl : ∀ l ∈ ls, l.Proper)
    (h : ls.foldlM add t = some u) : u.root.Proper := by
  induction ls generalizing t with
  | nil => exact Option.some.inj h ▸ ht
  | cons l ls ih =>
    rw [List.foldlM_cons] at h
    obtain ⟨s, hs, h⟩ := Option.bind_eq_some_iff.mp h
    exact ih (proper_add ht (hl l List.mem_cons_self) hs)
      (fun m hm => hl m (List.mem_cons_of_mem l hm)) h

/-- A document of proper lines names no key twice, at any depth. -/
theorem throughout_ofLines? (hl : ∀ l ∈ ls, l.Proper) (h : ofLines? ls = some j) :
    j.Throughout Json.Proper := by
  obtain ⟨t, ht, hj⟩ := Option.bind_eq_some_iff.mp h
  exact Option.some.inj hj ▸ proper_foldlM Node.proper_empty hl ht

end Filling

/-! ## Values -/

theorem throughout_momentJson (text : List Char) : (momentJson text).Throughout Json.Proper :=
  Fields.proper_nil.put (n := .value (.str (String.ofList text)))
    (Json.throughout_proper rfl)

theorem throughout_bareOf? {cs : List Char} (h : bareOf? cs = some j) :
    j.Throughout Json.Proper := by
  unfold bareOf? at h
  split at h
  · cases h
    exact Json.throughout_proper rfl
  split at h
  · cases h
    exact Json.throughout_proper rfl
  split at h
  · split at h
    · cases h
      exact Json.throughout_proper rfl
    · cases h
  · cases h
    exact throughout_momentJson _
  · split at h
    · cases h
      exact Json.throughout_proper rfl
    · cases h

theorem throughout_readBare {cs rest : List Char} (h : readBare cs = some (j, rest)) :
    j.Throughout Json.Proper := by
  unfold readBare at h
  obtain ⟨k, hk, h⟩ := Option.bind_eq_some_iff.mp h
  have hk := throughout_bareOf? hk
  split at h
  · split at h
    · obtain ⟨rfl, -⟩ := Prod.mk.inj (Option.some.inj h)
      exact throughout_momentJson _
    · obtain ⟨rfl, -⟩ := Prod.mk.inj (Option.some.inj h)
      exact hk
  · obtain ⟨rfl, -⟩ := Prod.mk.inj (Option.some.inj h)
    exact hk

/-- What the readers of values give with some fuel. -/
structure Reads (fuel : Nat) : Prop where
  value : ∀ depth cs j rest, readValue fuel depth cs = some (j, rest) → j.Throughout Json.Proper
  entries : ∀ depth cs es rest, readEntries fuel depth cs = some (es, rest) →
    ∀ e ∈ es, e.2.Throughout Json.Proper
  entry : ∀ depth cs e rest, readEntry fuel depth cs = some (e, rest) → e.2.Throughout Json.Proper

/-- An inline table of proper values names no key twice. -/
theorem throughout_closed? {entries : List ((List String × String) × Json)}
    (he : ∀ e ∈ entries, e.2.Throughout Json.Proper) (h : closed? entries = some j) :
    j.Throughout Json.Proper := by
  refine Filling.throughout_ofLines? (fun l hl => ?_) h
  obtain ⟨e, hm, rfl⟩ := List.mem_map.mp hl
  exact he e hm

theorem Reads.readValue {fuel depth : Nat} {cs rest : List Char} (ih : Reads fuel)
    (h : readValue (fuel + 1) depth cs = some (j, rest)) : j.Throughout Json.Proper := by
  have string {cs : List Char}
      (h : (readString cs).map (fun r => (Json.str (String.ofList r.1), r.2)) = some (j, rest)) :
      j.Throughout Json.Proper := by
    obtain ⟨r, -, hr⟩ := Option.map_eq_some_iff.mp h
    exact (Prod.mk.inj hr).1 ▸ Json.throughout_proper rfl
  unfold Toml.readValue at h
  split at h
  · split at h
    · cases h
    · obtain ⟨r, -, hr⟩ := Option.map_eq_some_iff.mp h
      exact (Prod.mk.inj hr).1 ▸ Json.throughout_proper rfl
  · split at h
    · cases h
    split at h
    · cases h
      exact Fields.proper_nil
    · obtain ⟨⟨es, cs⟩, hes, h⟩ := Option.bind_eq_some_iff.mp h
      obtain ⟨k, hk, h⟩ := Option.bind_eq_some_iff.mp h
      exact (Prod.mk.inj (Option.some.inj h)).1 ▸ throughout_closed? (ih.entries _ _ _ _ hes) hk
  · exact string h
  · exact string h
  · exact throughout_readBare h

theorem Reads.readEntries {fuel depth : Nat} {cs rest : List Char}
    {es : List ((List String × String) × Json)} (ih : Reads fuel)
    (h : readEntries (fuel + 1) depth cs = some (es, rest)) :
    ∀ e ∈ es, e.2.Throughout Json.Proper := by
  unfold Toml.readEntries at h
  obtain ⟨⟨e, cs⟩, he, h⟩ := Option.bind_eq_some_iff.mp h
  have he := ih.entry _ _ _ _ he
  dsimp only at h
  split at h
  · obtain ⟨⟨fs, cs⟩, hfs, h⟩ := Option.bind_eq_some_iff.mp h
    obtain ⟨rfl, -⟩ := Prod.mk.inj (Option.some.inj h)
    exact List.forall_mem_cons.mpr ⟨he, ih.entries _ _ _ _ hfs⟩
  · obtain ⟨rfl, -⟩ := Prod.mk.inj (Option.some.inj h)
    exact List.forall_mem_singleton.mpr he
  · cases h

theorem Reads.readEntry {fuel depth : Nat} {cs rest : List Char}
    {e : (List String × String) × Json} (ih : Reads fuel)
    (h : readEntry (fuel + 1) depth cs = some (e, rest)) : e.2.Throughout Json.Proper := by
  unfold Toml.readEntry at h
  obtain ⟨⟨keys, cs⟩, -, h⟩ := Option.bind_eq_some_iff.mp h
  obtain ⟨cs, -, h⟩ := Option.bind_eq_some_iff.mp h
  obtain ⟨⟨j, cs⟩, hj, h⟩ := Option.bind_eq_some_iff.mp h
  obtain ⟨rfl, -⟩ := Prod.mk.inj (Option.some.inj h)
  exact ih.value _ _ _ _ hj

/-- Every value read is proper, however deep. -/
theorem reads (fuel : Nat) : Reads fuel := by
  induction fuel with
  | zero =>
    exact {
      value := fun _ _ _ _ h => by simp [Toml.readValue] at h
      entries := fun _ _ _ _ h => by simp [Toml.readEntries] at h
      entry := fun _ _ _ _ h => by simp [Toml.readEntry] at h }
  | succ fuel ih =>
    exact ⟨fun _ _ _ _ => ih.readValue, fun _ _ _ _ => ih.readEntries, fun _ _ _ _ => ih.readEntry⟩

/-! ## Texts -/

theorem proper_readLine {fuel : Nat} {cs rest : List Char} {l : Line}
    (h : readLine fuel cs = some (l, rest)) : l.Proper := by
  unfold readLine at h
  split at h
  · obtain ⟨r, -, h⟩ := Option.bind_eq_some_iff.mp h
    obtain ⟨cs, -, h⟩ := Option.bind_eq_some_iff.mp h
    obtain ⟨cs, -, h⟩ := Option.bind_eq_some_iff.mp h
    exact (Prod.mk.inj (Option.some.inj h)).1 ▸ trivial
  · obtain ⟨r, -, h⟩ := Option.bind_eq_some_iff.mp h
    obtain ⟨cs, -, h⟩ := Option.bind_eq_some_iff.mp h
    exact (Prod.mk.inj (Option.some.inj h)).1 ▸ trivial
  · obtain ⟨⟨e, cs⟩, he, h⟩ := Option.bind_eq_some_iff.mp h
    obtain ⟨rfl, -⟩ := Prod.mk.inj (Option.some.inj h)
    exact (reads fuel).entry _ _ _ _ he

/-- Every line read is proper. -/
theorem proper_readLines {fuel : Nat} {cs : List Char} {ls : List Line}
    (h : readLines fuel cs = some ls) : ∀ l ∈ ls, l.Proper := by
  induction fuel generalizing cs ls with
  | zero => cases h
  | succ fuel ih =>
    unfold readLines at h
    split at h
    · cases h
      exact List.forall_mem_nil _
    · obtain ⟨⟨l, cs⟩, hl, h⟩ := Option.bind_eq_some_iff.mp h
      obtain ⟨cs, -, h⟩ := Option.bind_eq_some_iff.mp h
      obtain ⟨ms, hms, h⟩ := Option.bind_eq_some_iff.mp h
      obtain rfl := Option.some.inj h
      exact List.forall_mem_cons.mpr ⟨proper_readLine hl, ih hms⟩

/-- No table that a text denotes has a key twice, and no value in it is `null`. -/
theorem throughout_parse? {text : String} (h : parse? text = some j) :
    j.Throughout Json.Proper := by
  obtain ⟨ls, hls, h⟩ := Option.bind_eq_some_iff.mp h
  exact Filling.throughout_ofLines? (proper_readLines hls) h

end ArchiveLabels.Toml
