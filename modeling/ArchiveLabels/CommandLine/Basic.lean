import ArchiveLabels.Path

/-!
# The forms of the command line

The commands, and the options that each of them takes. Reading command lines and the texts that
explain them both go by these forms.
-/

namespace ArchiveLabels.CommandLine

/-- What the value of an option has to be. -/
inductive ValueForm where
  /-- A path, not the empty one. -/
  | path
  /-- A number of seconds. -/
  | seconds
deriving DecidableEq, Repr

/-- The value of an option. -/
structure OptionValue where
  /-- What stands for it in explanations. -/
  name : String
  /-- What it has to be. -/
  form : ValueForm
deriving DecidableEq, Repr

/-- An option. -/
structure OptionForm where
  /-- Its name behind two dashes. -/
  long : String
  /-- Its name behind one dash, if it has one. -/
  short : Option Char
  /-- Its value, if it takes one. -/
  value : Option OptionValue
  /-- What it is for. -/
  about : String
deriving DecidableEq, Repr

/-- What a command takes beside its options. -/
structure ArgumentForm where
  /-- What stands for it in explanations. -/
  name : String
  /-- What it is. -/
  about : String
deriving DecidableEq, Repr

/-- A command. -/
structure CommandForm where
  /-- Its name. -/
  name : String
  /-- What it does. -/
  about : String
  /-- What it takes beside its options, if anything. -/
  argument : Option ArgumentForm
  /-- Its options. -/
  options : List OptionForm
deriving DecidableEq, Repr

/-- The option that names a settings file. -/
def configOption : OptionForm :=
  ⟨"config", some 'c', some ⟨"CONFIG", .path⟩,
    "Configuration file (defaults to ./harvest.toml when present)"⟩

/-- The option to say less. -/
def quietOption : OptionForm := ⟨"quiet", some 'q', none, "Quiet mode (errors only)"⟩

/-- The option to say more. -/
def verboseOption : OptionForm := ⟨"verbose", some 'v', none, "Verbose mode (debug logging)"⟩

/-- The option that asks for an explanation. -/
def helpOption : OptionForm := ⟨"help", some 'h', none, "Print help"⟩

/-- The option that asks for the version. -/
def versionOption : OptionForm := ⟨"version", some 'V', none, "Print version"⟩

/-- The option that names the file for the report. -/
def reportOption : OptionForm :=
  ⟨"report", none, some ⟨"REPORT", .path⟩, "Write the report here instead of stdout"⟩

/-- The command that harvests what the settings say. -/
def runForm : CommandForm where
  name := "run"
  about := "Crawl every configured root, extract, check integrity and report"
  argument := none
  options := [configOption,
    ⟨"records", none, some ⟨"RECORDS", .path⟩,
      "Append extracted records to this file as JSON lines"⟩,
    quietOption, reportOption,
    ⟨"daemon", none, some ⟨"SECS", .seconds⟩,
      "Repeat the cycle every SECS seconds until interrupted"⟩,
    verboseOption, helpOption]

/-- The command that checks the catalog files of a directory. -/
def integrityForm : CommandForm where
  name := "integrity"
  about := "Check referential integrity across the catalog files under a directory"
  argument := some ⟨"DIR", "Directory holding catalog files"⟩
  options := [configOption, quietOption, reportOption, verboseOption, helpOption]

/-- The command that shows a list of checksums. -/
def manifestForm : CommandForm where
  name := "manifest"
  about := "Read a checksum manifest and print the resolved entries"
  argument := some ⟨"FILE", "Manifest file"⟩
  options := [
    ⟨"base", none, some ⟨"BASE", .path⟩,
      "Base directory for relative paths (defaults to the manifest's directory)"⟩,
    configOption, quietOption, verboseOption, helpOption]

/-- The command that shows what records are. -/
def schemaForm : CommandForm where
  name := "schema"
  about := "Print the JSON Schema of the extracted metadata record"
  argument := none
  options := [configOption, quietOption, verboseOption, helpOption]

/-- The commands. -/
def commandForms : List CommandForm := [runForm, integrityForm, manifestForm, schemaForm]

/-- The command that explains commands. -/
def helpCommand : String := "help"

/-- The options in front of the command. -/
def programOptions : List OptionForm :=
  [configOption, quietOption, verboseOption, helpOption, versionOption]

/-- The name of the program. -/
def programName : String := "harvest"

/-- What the program does. -/
def programAbout : String :=
  "Crawl archive labels, extract metadata, check integrity and report"

/-- The version of the program. -/
def programVersion : String := "0.1.0"

/-! ## What command lines ask for -/

/-- A command with what it needs. -/
inductive Command where
  /-- Harvest what the settings say, once or every so many seconds. -/
  | run (records report : Option Path) (seconds : Option Nat)
  /-- Check the catalog files of a directory. -/
  | integrity (directory : Path) (report : Option Path)
  /-- Show a list of checksums. -/
  | manifest (file : Path) (base : Option Path)
  /-- Show what records are. -/
  | schema
deriving DecidableEq, Repr

/-- What a command line asks for. -/
structure Invocation where
  /-- The settings file, if it names one. -/
  config : Option Path
  /-- What to do. -/
  command : Command
deriving DecidableEq, Repr

end ArchiveLabels.CommandLine
