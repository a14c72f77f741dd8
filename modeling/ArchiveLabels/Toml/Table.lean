import ArchiveLabels.Json.Basic

/-!
# Tables of TOML texts

The lines of a text fill tables within tables. A table that a header states, or that is written in
one piece, cannot be added to from elsewhere, and no key has two values; `Node.changeAt` is where
both are checked.
-/

namespace ArchiveLabels.Toml

/-- How a table came to be. -/
inductive Origin where
  /-- A header states it. -/
  | stated
  /-- The header of a table inside it implies it. -/
  | implied
  /-- A key with dots implies it. -/
  | dotted
deriving DecidableEq, Repr

/-- A value of a key. -/
inductive Node where
  /-- A value written in one piece. -/
  | value (j : Json)
  /-- A table, whose lines stand anywhere. -/
  | table (origin : Origin) (fields : List (String × Node))
  /-- A list of tables, last one first. -/
  | tables (ts : List Node)

/-- Keys with their values. -/
abbrev Fields := List (String × Node)

/-- Sets the value of a key. -/
def Fields.put (key : String) (n : Node) : Fields → Fields
  | [] => [(key, n)]
  | f :: fs => if f.1 = key then (key, n) :: fs else f :: Fields.put key n fs

namespace Node

/-- The table before the first line. -/
def empty : Node := .table .stated []

/-- Changes the table that keys lead to, in the last table of each list on the way. Tables that are
not there are made. Keys in front of a value do not lead into a table that a header states; `dotted`
says that these are such keys. -/
def changeAt (dotted : Bool) (f : Origin → Fields → Option Node) :
    List String → Origin → Fields → Option Node
  | [], o, fs => f o fs
  | k :: ks, o, fs => do
    let n ←
      match fs.lookup k with
      | none => changeAt dotted f ks (if dotted then .dotted else .implied) []
      | some (.table p gs) =>
        if dotted && p == .stated then none else changeAt dotted f ks p gs
      | some (.tables (.table p gs :: ts)) =>
        (changeAt dotted f ks p gs).map fun n => .tables (n :: ts)
      | some _ => none
    return .table o (fs.put k n)

/-- States a table by a header. -/
def state (key : String) (o : Origin) (fs : Fields) : Option Node :=
  match fs.lookup key with
  | none => some (.table o (fs.put key .empty))
  | some (.table .implied gs) => some (.table o (fs.put key (.table .stated gs)))
  | some _ => none

/-- States one table more of a list by a header. -/
def stateNext (key : String) (o : Origin) (fs : Fields) : Option Node :=
  match fs.lookup key with
  | none => some (.table o (fs.put key (.tables [.empty])))
  | some (.tables ts) => some (.table o (fs.put key (.tables (.empty :: ts))))
  | some _ => none

/-- Gives a value to a key of a table, which is that of a header unless keys with dots lead to it.
-/
def give (dotted : Bool) (key : String) (j : Json) (o : Origin) (fs : Fields) : Option Node :=
  if (o == .dotted) != dotted then none
  else if (fs.lookup key).isSome then none
  else some (.table o (fs.put key (.value j)))

/-- Gives a value to the key behind others, in a table. -/
def giveAt (keys : List String) (key : String) (j : Json) : Origin → Fields → Option Node :=
  changeAt true (give (!keys.isEmpty) key j) keys

end Node

/-! ## What tables denote -/

mutual

/-- The JSON value that a value denotes. -/
def Node.toJson : Node → Json
  | .value j => j
  | .table _ fs => .obj (fieldsToJson fs)
  | .tables ts => .arr (nodesToJson ts).reverse
termination_by structural n => n

/-- The JSON values of a list. -/
def nodesToJson : List Node → List Json
  | [] => []
  | n :: ns => n.toJson :: nodesToJson ns
termination_by structural ns => ns

/-- The fields of a JSON object. -/
def fieldsToJson : List (String × Node) → List (String × Json)
  | [] => []
  | f :: fs => fieldToJson f :: fieldsToJson fs
termination_by structural fs => fs

/-- A field of a JSON object. -/
def fieldToJson : String × Node → String × Json
  | (k, n) => (k, n.toJson)
termination_by structural f => f

end

/-! ## Lines -/

/-- A line of a text. -/
inductive Line where
  /-- A header of a table. -/
  | header (keys : List String) (key : String)
  /-- A header of a table of a list. -/
  | listHeader (keys : List String) (key : String)
  /-- A value of a key. -/
  | value (keys : List String) (key : String) (j : Json)

/-- The tables filled so far, and the keys of the table that values go to. -/
structure Filling where
  root : Node
  current : List String

namespace Filling

/-- Nothing is filled yet. -/
def start : Filling := ⟨.empty, []⟩

/-- Changes the table that keys lead to. -/
def changeAt (t : Filling) (keys : List String) (f : Origin → Fields → Option Node) : Option Node :=
  match t.root with
  | .table o fs => Node.changeAt false f keys o fs
  | _ => none

/-- Takes in a line. -/
def add (t : Filling) : Line → Option Filling
  | .header keys key => do return ⟨← t.changeAt keys (Node.state key), keys ++ [key]⟩
  | .listHeader keys key => do return ⟨← t.changeAt keys (Node.stateNext key), keys ++ [key]⟩
  | .value keys key j => do
    return { t with root := ← t.changeAt t.current (Node.giveAt keys key j) }

/-- The JSON value of a list of lines. -/
def ofLines? (ls : List Line) : Option Json := do
  return (← ls.foldlM add start).root.toJson

end Filling

end ArchiveLabels.Toml
