import ArchiveLabels.Json.Writer

/-!
# JSON texts in pieces

A value on one line is written piece by piece : each bracket, comma, colon and quote, each number
and word, each run of characters that stand for themselves and each escape. The pieces of a value
are those of its text (`flatten_pieces`).
-/

namespace ArchiveLabels.Json

/-- The pieces of the characters of a string, in front of which stands the given run, last character
first. -/
def escapedPieces (run : List Char) : List Char → List (List Char)
  | [] => if run.isEmpty then [] else [run.reverse]
  | c :: cs =>
    if escapedChar c = [c] then escapedPieces (c :: run) cs
    else (if run.isEmpty then [] else [run.reverse]) ++ escapedChar c :: escapedPieces [] cs

/-- The pieces of a string in quotes. -/
def quotedPieces (s : String) : List (List Char) :=
  ['"'] :: (escapedPieces [] s.toList ++ [['"']])

mutual

/-- The pieces of a value. -/
def pieces : Json → List (List Char)
  | .null => ["null".toList]
  | .bool true => ["true".toList]
  | .bool false => ["false".toList]
  | .int n => [(toString n).toList]
  | .real text => [text.toList]
  | .broken text => [text.toList]
  | .str s => quotedPieces s
  | .arr items => ['['] :: (piecesOfItems items ++ [[']']])
  | .obj fields => ['\x7b'] :: (piecesOfFields fields ++ [['\x7d']])
termination_by structural j => j

/-- The pieces of the items of a list. -/
def piecesOfItems : List Json → List (List Char)
  | [] => []
  | j :: js => j.pieces ++ (if js.isEmpty then [] else [','] :: piecesOfItems js)
termination_by structural js => js

/-- The pieces of the fields of an object. -/
def piecesOfFields : List (String × Json) → List (List Char)
  | [] => []
  | f :: fs => piecesOfField f ++ (if fs.isEmpty then [] else [','] :: piecesOfFields fs)
termination_by structural fs => fs

/-- The pieces of a field of an object. -/
def piecesOfField : String × Json → List (List Char)
  | (name, value) => quotedPieces name ++ [':'] :: value.pieces
termination_by structural f => f

end

/-! ## Texts -/

theorem flatten_escapedPieces (run cs : List Char) :
    (escapedPieces run cs).flatten = run.reverse ++ escaped cs := by
  induction cs generalizing run with
  | nil => cases run <;> simp [escapedPieces, escaped]
  | cons c cs ih =>
    by_cases h : escapedChar c = [c]
    · simp [escapedPieces, escaped, h, ih]
    · cases run <;> simp [escapedPieces, escaped, h, ih]

theorem flatten_quotedPieces (s : String) : (quotedPieces s).flatten = quoted s := by
  simp [quotedPieces, quoted, flatten_escapedPieces]

mutual

/-- The pieces of a value make up its text. -/
theorem flatten_pieces : ∀ j : Json, j.pieces.flatten = compactChars j
  | .null => by simp [pieces, compactChars]
  | .bool true => by simp [pieces, compactChars]
  | .bool false => by simp [pieces, compactChars]
  | .int _ => by simp [pieces, compactChars]
  | .real _ => by simp [pieces, compactChars]
  | .broken _ => by simp [pieces, compactChars]
  | .str s => by simp [pieces, compactChars, flatten_quotedPieces]
  | .arr items => by simp [pieces, compactChars, flatten_piecesOfItems items]
  | .obj fields => by simp [pieces, compactChars, flatten_piecesOfFields fields]

theorem flatten_piecesOfItems : ∀ js : List Json,
    (piecesOfItems js).flatten = compactItems js
  | [] => by simp [piecesOfItems, compactItems]
  | j :: js => by
    have := flatten_pieces j
    have := flatten_piecesOfItems js
    cases js <;> simp_all [piecesOfItems, compactItems]

theorem flatten_piecesOfFields : ∀ fs : List (String × Json),
    (piecesOfFields fs).flatten = compactFields fs
  | [] => by simp [piecesOfFields, compactFields]
  | f :: fs => by
    have := flatten_piecesOfField f
    have := flatten_piecesOfFields fs
    cases fs <;> simp_all [piecesOfFields, compactFields]

theorem flatten_piecesOfField : ∀ f : String × Json,
    (piecesOfField f).flatten = compactField f
  | (name, value) => by
    simp [piecesOfField, compactField, flatten_quotedPieces, flatten_pieces value]

end

end ArchiveLabels.Json
