import ArchiveLabels.CommandLine.Help
import ArchiveLabels.Text.Digits

/-!
# Reading command lines

A command line has options, the name of a command, and behind it that command's options and
argument. Some options may stand on either side of the name; the one behind it counts then. Reading
goes from left to right and stops at the first fault, or at the first option that asks for an
explanation.
-/

namespace ArchiveLabels.CommandLine

/-- Why a command line names no command to carry out. -/
inductive Stop where
  /-- It asks for a text. -/
  | shown (text : String)
  /-- It is at fault. -/
  | refused
deriving DecidableEq, Repr

/-- The options and words read so far. -/
structure Given where
  /-- The options by their long names, with their values. -/
  options : List (String × String)
  /-- The words that are no options. -/
  words : List String
deriving DecidableEq, Repr

namespace Given

/-- Nothing is read yet. -/
def empty : Given := ⟨[], []⟩

/-- The value of an option as a path. -/
def path? (g : Given) (long : String) : Option Path :=
  (g.options.lookup long).map Path.mk

end Given

/-! ## Options -/

/-- The number that is written, perhaps with a plus in front, if it has at most 64 bits. -/
def secondsOf? (s : String) : Option Nat :=
  Text.unsigned? UInt64.size s.toList

namespace ValueForm

/-- The text is a value of the form. -/
def accepts : ValueForm → String → Bool
  | path, s => s != ""
  | seconds, s => (secondsOf? s).isSome

end ValueForm

/-- An argument that cannot be the value of the option in front of it. -/
def isOptionLike (s : String) : Bool :=
  s.toList.head? = some '-' && s != "-"

/-- What stands in front of the first equals sign and what stands behind it, if there is one. -/
def splitValue (cs : List Char) : String × Option String :=
  let name := String.ofList (cs.takeWhile (· ≠ '='))
  match cs.dropWhile (· ≠ '=') with
  | _ :: value => (name, some (String.ofList value))
  | [] => (name, none)

/-- What an option without value asks for : explanations are given at once, all else is kept. An
option stands once. -/
def giveFlag (help : String) (o : OptionForm) (g : Given) : Except Stop Given :=
  if o = helpOption then .error (.shown help)
  else if o = versionOption then
    .error (.shown (programName ++ " " ++ programVersion ++ "\n"))
  else if (g.options.lookup o.long).isSome then .error .refused
  else .ok { g with options := (o.long, "") :: g.options }

/-- Keeps the value of an option. -/
def giveValue (o : OptionForm) (v : OptionValue) (value : String) (g : Given) : Except Stop Given :=
  if (g.options.lookup o.long).isSome || !v.form.accepts value then .error .refused
  else .ok { g with options := (o.long, value) :: g.options }

/-- Reads short options that share a dash. The option whose value is the next argument, if there is
one, is given back. -/
def readShorts (help : String) (options : List OptionForm) (g : Given) :
    List Char → Except Stop (Given × Option (OptionForm × OptionValue))
  | [] => .ok (g, none)
  | c :: cs =>
    match options.find? fun o => o.short = some c with
    | none => .error .refused
    | some o =>
      match o.value, cs with
      | none, cs => do readShorts help options (← giveFlag help o g) cs
      | some v, [] => .ok (g, some (o, v))
      | some v, '=' :: value => do return (← giveValue o v (String.ofList value) g, none)
      | some v, value => do return (← giveValue o v (String.ofList value) g, none)

/-- Reads a long option. -/
def readLong (help : String) (options : List OptionForm) (g : Given) (cs : List Char) :
    Except Stop (Given × Option (OptionForm × OptionValue)) :=
  let (name, value) := splitValue cs
  match options.find? fun o => o.long = name with
  | none => .error .refused
  | some o =>
    match o.value, value with
    | none, none => do return (← giveFlag help o g, none)
    | none, some _ => .error .refused
    | some v, some value => do return (← giveValue o v value g, none)
    | some v, none => .ok (g, some (o, v))

/-- Reads an argument that starts with a dash. -/
def readOption (help : String) (options : List OptionForm) (g : Given) (cs : List Char) :
    Except Stop (Given × Option (OptionForm × OptionValue)) :=
  match cs with
  | '-' :: '-' :: cs => readLong help options g cs
  | cs => readShorts help options g cs.tail

/-! ## Levels -/

/-- Reads the arguments of a program or a command, `help` being its explanation. The words that it
takes are at most `limit`; if it takes none, the first word ends its arguments, and is given back
with those behind it. -/
def readLevel (help : String) (options : List OptionForm) (limit : Option Nat) (g : Given) :
    List String → Except Stop (Given × List String)
  | [] => .ok (g, [])
  | "--" :: rest =>
    if (limit.getD 0) < g.words.length + rest.length then .error .refused
    else .ok ({ g with words := g.words ++ rest }, [])
  | a :: rest =>
    if isOptionLike a then
      match readOption help options g a.toList, rest with
      | .error stop, _ => .error stop
      | .ok (g, none), rest => readLevel help options limit g rest
      | .ok (_, some _), [] => .error .refused
      | .ok (g, some (o, v)), value :: rest =>
        if isOptionLike value then .error .refused
        else
          match giveValue o v value g with
          | .error stop => .error stop
          | .ok g => readLevel help options limit g rest
    else
      match limit with
      | none => .ok (g, a :: rest)
      | some n =>
        if g.words.length < n then
          readLevel help options limit { g with words := g.words ++ [a] } rest
        else .error .refused

/-- Explains the command that words name, or the program. -/
def explain : List String → Stop
  | [] => .shown programHelp
  | [name] =>
    if name = helpCommand then .shown helpHelp
    else
      match commandForms.find? fun c => c.name = name with
      | some c => .shown c.help
      | none => .refused
  | _ => .refused

/-- The argument of a command. -/
def argumentOf (g : Given) : Except Stop Path :=
  match g.words with
  | [w] => if w = "" then .error .refused else .ok ⟨w⟩
  | _ => .error .refused

/-- The command of the given name, with its options and argument. -/
def commandOf (name : String) (g : Given) : Except Stop Command := do
  if name = integrityForm.name then return .integrity (← argumentOf g) (g.path? "report")
  else if name = manifestForm.name then return .manifest (← argumentOf g) (g.path? "base")
  else if name = schemaForm.name then return .schema
  else
    return .run (g.path? "records") (g.path? "report")
      ((g.options.lookup "daemon").bind secondsOf?)

/-- Reads a command line. -/
def read (arguments : List String) : Except Stop Invocation := do
  let (outer, rest) ← readLevel programHelp programOptions none .empty arguments
  match rest with
  | [] => throw .refused
  | name :: rest =>
    if name = helpCommand then throw (explain rest)
    else
      match commandForms.find? fun c => c.name = name with
      | none => throw .refused
      | some c =>
        let (inner, _) ← readLevel c.help c.options (some c.argument.toList.length) .empty rest
        let command ← commandOf c.name inner
        return ⟨inner.path? "config" <|> outer.path? "config", command⟩

end ArchiveLabels.CommandLine
