import ArchiveLabels.Wildcard.Expression
import ArchiveLabels.Wildcard.Lookup
import ArchiveLabels.Wildcard.Reader

/-!
# Lists of wildcards

Wildcards are read and used as lists. `Wildcard.parseAll` fails on the first text that is no
wildcard. If all are wildcards, it fails on one whose expression nests too deeply; those that ask
for an extension come first, since each of them has an expression of its own, while the others are
joined and go by their numbers.
-/

namespace ArchiveLabels

/-- What keeps texts from being a list of wildcards. -/
inductive WildcardError where
  /-- A text is no wildcard. -/
  | malformed (pattern : String) (fault : WildcardFault)
  /-- An expression of its own nests too deeply. -/
  | tooDeep (patterns : List String) (expression : String)
  /-- Of the joined expressions, that of the given number nests too deeply. -/
  | tooDeepAt (patterns : List String) (index : Nat)
deriving DecidableEq, Repr

namespace WildcardError

/-- The texts that an error is about. -/
def pattern : WildcardError → String
  | malformed p _ => p
  | tooDeep ps _ => String.intercalate ", " ps
  | tooDeepAt ps _ => String.intercalate ", " ps

/-- The wording of what is wrong with an expression, given its number. -/
def expressionCause (index : Nat) : String := "error parsing pattern " ++ toString index

/-- The wording of what is wrong. -/
def cause : WildcardError → String
  | malformed p fault => "error parsing glob '" ++ p ++ "': " ++ fault.message
  | tooDeep _ e => "error parsing glob '" ++ e ++ "': " ++ expressionCause 0
  | tooDeepAt _ index => expressionCause index

/-- The wording of an error. -/
def message (e : WildcardError) : String :=
  "Invalid wildcard '" ++ e.pattern ++ "': " ++ e.cause

end WildcardError

namespace Wildcard

/-- The error of wildcards one of which nests too deeply. -/
def depthError? (ws : List Wildcard) : Option WildcardError :=
  let patterns := ws.map source
  match ws.find? fun w => lookup w.tokens = .extension && w.isTooDeep with
  | some w => some (.tooDeep patterns w.expression)
  | none =>
    ((ws.filter fun w => lookup w.tokens = .expression).findIdx? isTooDeep).map
      (.tooDeepAt patterns)

/-- Reads a list of wildcards. -/
def parseAll (patterns : List String) : Except WildcardError (List Wildcard) := do
  let ws ← patterns.mapM fun p => (parse p).mapError (.malformed p)
  match depthError? ws with
  | some e => throw e
  | none => return ws

/-- The name is one that some of the wildcards stands for. -/
def anyAccepts (ws : List Wildcard) (name : String) : Bool :=
  ws.any fun w => w.accepts name

end Wildcard

end ArchiveLabels
