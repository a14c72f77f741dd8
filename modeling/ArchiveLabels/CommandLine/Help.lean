import ArchiveLabels.CommandLine.Basic
import ArchiveLabels.Report.Writer

/-!
# Explanations of the command line

The texts that explain the program and its commands. Names stand in a column as wide as the longest
of them.
-/

namespace ArchiveLabels.CommandLine

open TextReport (ofLines padded)

/-- Lines of names with what they are, under a title. -/
def table (title : String) (rows : List (String × String)) : List String :=
  let width := (rows.map fun r => r.1.length).foldl max 0
  if rows.isEmpty then []
  else ["", title ++ ":"] ++ rows.map fun r => "  " ++ padded width r.1 ++ "  " ++ r.2

namespace OptionForm

/-- The names of an option, and what stands for its value. -/
def usage (o : OptionForm) : String :=
  (match o.short with
    | some c => "-" ++ c.toString ++ ", "
    | none => "    ") ++
  "--" ++ o.long ++
  match o.value with
  | some v => " <" ++ v.name ++ ">"
  | none => ""

/-- A line on an option. -/
def row (o : OptionForm) : String × String := (o.usage, o.about)

end OptionForm

/-- What stands for an argument. -/
def ArgumentForm.usage (a : ArgumentForm) : String := "<" ++ a.name ++ ">"

/-- The explanation of a command. -/
def CommandForm.help (c : CommandForm) : String :=
  let usage := [programName, c.name, "[OPTIONS]"] ++ c.argument.toList.map ArgumentForm.usage
  ofLines ([c.about, "", "Usage: " ++ String.intercalate " " usage] ++
    table "Arguments" (c.argument.toList.map fun a => (a.usage, a.about)) ++
    table "Options" (c.options.map OptionForm.row))

/-- What the command that explains is for. -/
def helpAbout : String := "Print this message or the help of the given subcommand(s)"

/-- The explanation of the program. -/
def programHelp : String :=
  ofLines ([programAbout, "", "Usage: " ++ programName ++ " [OPTIONS] <COMMAND>"] ++
    table "Commands" (commandForms.map (fun c => (c.name, c.about)) ++
      [(helpCommand, helpAbout)]) ++
    table "Options" (programOptions.map OptionForm.row))

/-- What stands for the names of the commands to explain. -/
def helpArgument : String := "[COMMAND]..."

/-- The explanation of the command that explains. -/
def helpHelp : String :=
  ofLines ([helpAbout, "", "Usage: " ++ String.intercalate " "
      [programName, helpCommand, helpArgument]] ++
    table "Arguments" [(helpArgument, "Print help for the subcommand(s)")])

end ArchiveLabels.CommandLine
