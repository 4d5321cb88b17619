import Wandika.Command.Host
import Wandika.Settings.Toml
import Wandika.Settings.Yaml
import Wandika.Text.Quoted

/-!
# Settings files

* `SettingsError`: why settings could not be loaded;
* `Settings.load`: the settings of a file, whose format is told by its extension;
* `Settings.discover`: the settings of the first well-known file in a directory.
-/

namespace Wandika

/-- Why settings could not be loaded. -/
inductive SettingsError
  | read (path : String) (error : FileError)
  | stat (path : String) (error : FileError)
  | extension (ext : String)
  | malformed (path : String)
  | emptyPrompt (path : String)

namespace SettingsError

/-- What is said about a file that is not well formed. -/
def malformedText : String := "not a valid settings document"

/-- The wording of an error. -/
def message : SettingsError → String
  | .read path e => "config: read " ++ path ++ ": " ++ e.message
  | .stat path e => "config: stat " ++ path ++ ": " ++ e.message
  | .extension ext => "config: unsupported file extension " ++ Text.quote ext
  | .malformed path => "config: parse " ++ path ++ ": " ++ malformedText
  | .emptyPrompt path => "config: " ++ path ++ ": repl.prompt must not be empty"

/-- Whether the reason is that a file does not exist. -/
def isNotFound : SettingsError → Bool
  | .read _ e => e.cause = .notFound
  | .stat _ e => e.cause = .notFound
  | _ => false

end SettingsError

namespace Settings

/-- The settings in the bytes of a file, in the format that its extension tells. -/
def ofBytes (path : String) (bytes : List UInt8) : Except SettingsError Settings :=
  let checked : Option Settings → Except SettingsError Settings
    | none => .error (.malformed path)
    | some s => if s.prompt = "" then .error (.emptyPrompt path) else .ok s
  match Text.toLower (Path.extension path) with
  | ".toml" => checked ((Toml.read? bytes).bind (Document.settings? Toml.dialect))
  | ".yaml" | ".yml" => checked ((Yaml.read? bytes).bind (Document.settings? Yaml.dialect))
  | ext => .error (.extension ext)

variable {m : Type → Type} [Monad m] [Host m]

/-- The settings of a file on top of the defaults. -/
def load (path : String) : m (Except SettingsError Settings) := do
  match ← Host.readFile path with
  | .error e => return .error (.read path e)
  | .ok bytes => return ofBytes path bytes

/-- The names of settings files, in the order in which they are looked for. -/
def fileNames : List String := ["vowel.toml", "vowel.yaml", "vowel.yml"]

/-- Loads the first of some files of a directory that exists, the defaults if there is none. -/
def discoverAmong (dir : String) : List String → m (Except SettingsError Settings)
  | [] => return .ok {}
  | name :: names => do
      let path := Path.join dir name
      match ← Host.stat (m := m) path with
      | .ok () => load path
      | .error e =>
          if e.cause = .notFound then discoverAmong dir names else return .error (.stat path e)

/-- Loads the settings file of a directory, the defaults if there is none. -/
def discover (dir : String) : m (Except SettingsError Settings) :=
  discoverAmong dir fileNames

end Settings

end Wandika
