import ArchiveLabels.CommandLine.Reader
import ArchiveLabels.Config.Load
import ArchiveLabels.Harvest.Run
import ArchiveLabels.Record.Schema

/-!
# Carrying out commands

What each command does to a file system, what it prints, and the status that the program ends with.
-/

namespace ArchiveLabels.CommandLine

/-- The settings for a command. -/
def settingsFor (environment : List (String × String)) (i : Invocation) :
    Action HarvestError Config := do
  ((Config.load (← get) environment i.config).mapError .settings : Except HarvestError Config)

/-- What is needed to harvest what the settings say : the harvester, the state that the last run
left, and the seconds from one harvest to the next, if there is to be more than one. -/
def prepareRun (environment : List (String × String)) (i : Invocation)
    (records report : Option Path) (seconds : Option Nat) :
    Action HarvestError (Harvester × HarvestState × Option Nat) := do
  let config ← settingsFor environment i
  let h ← Harvester.prepare (← get) config i.config records report
  let s ← h.loadState (← get)
  return (h, s, seconds.filter (0 < ·) <|> config.interval?)

/-- Checks the catalog files of a directory. -/
def checkCatalog (environment : List (String × String)) (i : Invocation) (directory : Path)
    (report : Option Path) : Action HarvestError Unit := do
  unless (← get).hasDirectory directory do throw (.notADirectory directory)
  let config ← settingsFor environment i
  let h ← Harvester.forCatalog (← get) config i.config directory report
  let _ ← h.harvest (← h.loadState (← get))

/-- A line on an entry of a list of checksums. -/
def entryLine (e : Path × String) : String := e.2 ++ "  " ++ e.1.text ++ "\n"

/-- Shows a list of checksums. -/
def showManifest (file : Path) (base : Option Path) : Action HarvestError Unit := do
  let m ← (((← get).readManifest file (base.getD file.directory)).mapError (.manifest file) :
    Except HarvestError Manifest)
  FileSystem.print (String.join (m.entries.map entryLine))

/-- How a command ends. -/
inductive Ending where
  /-- With a status, and something to say about it. -/
  | finished (status : Nat) (complaint : String)
  /-- Not at all : there is to be a harvest every so many seconds. -/
  | repeats (h : Harvester) (s : HarvestState) (seconds : Nat)

/-- The wording of an error on the command line. -/
def complaintOf (e : HarvestError) : String := "harvest error: " ++ e.message ++ "\n"

/-- Ends with success. -/
def succeeded : Ending := .finished 0 ""

/-- Carries out what a command line asks for. -/
def perform (environment : List (String × String)) (i : Invocation) :
    Action HarvestError Ending := do
  match i.command with
  | .run records report seconds =>
    match ← prepareRun environment i records report seconds with
    | (h, s, some n) => return .repeats h s n
    | (h, s, none) =>
      let _ ← h.harvest s
      return succeeded
  | .integrity directory report =>
    checkCatalog environment i directory report
    return succeeded
  | .manifest file base =>
    showManifest file base
    return succeeded
  | .schema =>
    FileSystem.print (Record.Schema.record.pretty ++ "\n")
    return succeeded

/-- Runs the program : status 2 is that of a command line that is at fault, status 1 that of a
command that fails. -/
def run (environment : List (String × String)) (arguments : List String) :
    StateM FileSystem Ending := do
  match read arguments with
  | .error (.shown text) =>
    modify fun fs => { fs with printed := fs.printed ++ text }
    return succeeded
  | .error .refused => return .finished 2 programHelp
  | .ok i =>
    match ← (perform environment i).run with
    | .ok ending => return ending
    | .error e => return .finished 1 (complaintOf e)

/-- The state after one of many harvests : that of before, if the harvest fails. -/
def harvestAgain (h : Harvester) (s : HarvestState) : StateM FileSystem HarvestState := do
  match ← (h.harvest s).run with
  | .ok (_, next) => return next
  | .error _ => return s

end ArchiveLabels.CommandLine
