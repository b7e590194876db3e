import Tabletop.Settings.Basic
import Tabletop.Settings.Variables
import Tabletop.Settings.Wrapped
import Tabletop.Toml.Reader

/-!
# Loading settings

Settings are the built-in ones, with the settings file over them and the variables over both.

* `SettingsFile` — no file, a file that is not there, or the text of a file.
* `Settings.merged` — the three layers as one.
* `Settings.ofLayer?` — the settings of a layer.
* `Settings.load` — the settings of the merged layers, when their mechanic can be used.
-/

namespace Tabletop

/-- The settings file of the program. -/
inductive SettingsFile where
  /-- none was asked for -/
  | unused
  /-- there is no file of this name -/
  | missing (name : String)
  /-- the text of the file -/
  | text (contents : String)
  deriving DecidableEq, Repr

/-- Why settings cannot be loaded. -/
inductive SettingsError where
  | notFound (name : String)
  /-- a layer cannot be read, or a value is not of its key's form -/
  | shape
  /-- the mechanic cannot be used -/
  | config (error : ConfigError)
  deriving DecidableEq, Repr

/-- The wording of a settings error. -/
def SettingsError.message : SettingsError → String
  | notFound name => "Config file not found: " ++ name
  | shape => "invalid settings"
  | config error => error.message

namespace Settings

/-- The layer of the settings file. -/
def fileLayer : SettingsFile → Except SettingsError Json
  | .unused => .ok (.obj [])
  | .missing name => .error (.notFound name)
  | .text contents =>
    match (Toml.read? contents).bind unwrapped? with
    | some layer => .ok layer
    | none => .error .shape
where
  /-- the layer of a table, with its values unwrapped -/
  unwrapped? : Json → Option Json
    | .obj fields => (Json.unwrapFields? fields).map .obj
    | value => some value

/-- The built-in settings under the layer of the file under that of the variables. -/
def merged (file : Json) (environment : Environment) : Json :=
  ((Json.of ({} : Settings)).overlay file).overlay environment.layer

/-- The settings of a layer. A mechanic may be given as a list of its fields in order; items beyond
the last field do not count. -/
def ofLayer? (layer : Json) : Option Settings :=
  (layer.cutItems "mechanic" Config.fieldNames.length).as? Settings

/-- Loads the settings. -/
def load (file : SettingsFile) (environment : Environment) :
    Except SettingsError Settings := do
  let layer ← fileLayer file
  match ofLayer? (merged layer environment) with
  | none => .error .shape
  | some settings =>
    match settings.mechanic.validate with
    | .ok () => .ok settings
    | .error e => .error (.config e)

end Settings

end Tabletop
