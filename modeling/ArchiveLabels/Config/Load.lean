import ArchiveLabels.Config.Codec
import ArchiveLabels.Config.Environment
import ArchiveLabels.FileSystem.Operations
import ArchiveLabels.Toml.Reader

/-!
# Where settings come from

Settings are laid over each other : the defaults, the user's own file, the file that is asked for or
else the one of the current directory, and the environment. Of two layers that give a setting, the
later one counts.
-/

namespace ArchiveLabels.Config

/-- The file that is read unless another one is asked for. -/
def localFile : Path := ⟨"harvest.toml"⟩

/-- Where the user's own file stands among the files of settings. -/
def userFileName : Path := ⟨"harvest/config.toml"⟩

/-- The directory that a variable names. -/
def directoryOf? (environment : List (String × String)) (name : String) : Option Path :=
  (environment.lookup name).map Path.mk

/-- The directory of the user's files of settings. -/
def settingsDirectory? (environment : List (String × String)) : Option Path :=
  match (directoryOf? environment "XDG_CONFIG_HOME").filter Path.isAbsolute with
  | some d => some d
  | none => (directoryOf? environment "HOME").map fun d => Path.join d ⟨".config"⟩

/-- The user's own file. -/
def userFile? (environment : List (String × String)) : Option Path :=
  (settingsDirectory? environment).map fun d => Path.join d userFileName

/-- The first file of the given path, in the current directory or in those around it. -/
def nearestFile? (fs : FileSystem) (p : Path) : Option Path :=
  let directories :=
    if p.isAbsolute then [fs.workingDirectory]
    else FileSystem.ancestors (fs.workingDirectory.text.length + 1) fs.workingDirectory
  (directories.map fun d => Path.join d p).find? fun q => fs.has q && !fs.hasDirectory q

/-- The settings in a file. -/
def readSettings (fs : FileSystem) (p : Path) : Except ConfigError Json :=
  match nearestFile? fs p with
  | none => .ok (.obj [])
  | some q =>
    match (fs.readText q).toOption.bind Toml.parse? with
    | some j => .ok j
    | none => .error .malformed

/-- The settings in a file, if it is there. -/
def layer (fs : FileSystem) (p : Option Path) : Except ConfigError Json :=
  match p.filter fun p => fs.has p with
  | some p => readSettings fs p
  | none => .ok (.obj [])

/-- All layers, in the order in which they are laid over each other. -/
def layers (fs : FileSystem) (environment : List (String × String)) (asked : Option Path) :
    Except ConfigError (List Json) := do
  return [default.toJson, ← layer fs (userFile? environment),
    ← layer fs (some (asked.getD localFile)), Environment.settings environment]

/-- Layers laid over each other. -/
def overlay (ls : List Json) : Json := ls.foldl Json.merge (.obj [])

/-- Reads the settings and checks them. A file that is asked for has to be there. -/
def load (fs : FileSystem) (environment : List (String × String)) (asked : Option Path) :
    Except ConfigError Config := do
  match asked.filter fun p => !fs.has p with
  | some p => throw (.missingFile p)
  | none =>
    match ofJson? (overlay (← layers fs environment asked)) with
    | none => throw .malformed
    | some c =>
      c.validate
      return c

end ArchiveLabels.Config
