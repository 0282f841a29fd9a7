import ConstPromotion.Attempt
import ConstPromotion.Config.Document
import ConstPromotion.Json.Parser
import ConstPromotion.Yaml.Parser

/-!
# Configuration files

A configuration lies in the root of a build under one of three names, the first of which that is a
file counts. A file with the extension `json` is read as JSON, and any other as YAML.
-/

namespace ConstPromotion

/-- Why a configuration could not be loaded. -/
inductive ConfigError where
  | read (path : Path) (cause : OsError)
  | yaml (path : Path) (detail : String)
  | json (path : Path) (detail : String)
  | invalid (path : Path) (fault : ConfigFault)
deriving DecidableEq

/-- The wording of an error. -/
def ConfigError.message : ConfigError → String
  | .read p e => "Failed to read config " ++ p.toString ++ ": " ++ e.message
  | .yaml p d => "Failed to parse YAML config " ++ p.toString ++ ": " ++ d
  | .json p d => "Failed to parse JSON config " ++ p.toString ++ ": " ++ d
  | .invalid p f => "Invalid config " ++ p.toString ++ ": " ++ f.message

/-- The names of configuration files, the preferred one first. -/
def configFileNames : List String := ["constpatch.yaml", "constpatch.yml", "constpatch.json"]

/-- The configuration file in a directory. -/
def FileSystem.configFile? (fs : FileSystem) (root : Path) : Option Path :=
  (configFileNames.map fun name => root.join (.ofString name)).find? fs.isFile

/-- Reads a configuration from JSON text. -/
def Config.ofJsonText (text : List Char) : Except String Config :=
  match Json.parse? text with
  | none => .error "the text is no JSON value"
  | some v =>
    match Config.read? Json.reader v with
    | some c => .ok c
    | none => .error "the value is no configuration"

/-- Reads a configuration from YAML text. -/
def Config.ofYamlText (text : List Char) : Except String Config :=
  match Yaml.parse? text with
  | .error e => .error e.message
  | .ok document =>
    match Config.read? document.reader document with
    | some c => .ok c
    | none => .error "the document is no configuration"

/-- Reads the text of the configuration file at a path. -/
def Config.ofText (p : Path) (text : List Char) : Except ConfigError Config := do
  let c ←
    if p.extension? = some "json".toList then
      (Config.ofJsonText text).mapError (ConfigError.json p)
    else (Config.ofYamlText text).mapError (ConfigError.yaml p)
  match c.fault? with
  | some fault => throw (.invalid p fault)
  | none => return c

/-- Loads a configuration file. -/
def FileSystem.loadConfigFile (fs : FileSystem) (p : Path) : Except ConfigError Config := do
  let text ← (fs.readText p).mapError (ConfigError.read p)
  Config.ofText p text.toList

/-- Loads the configuration of a build, with its path; without a file, it is the default one. -/
def FileSystem.loadConfig (fs : FileSystem) (root : Path) :
    Except ConfigError (Config × Option Path) :=
  match fs.configFile? root with
  | some p => do return (← fs.loadConfigFile p, some p)
  | none => .ok ({}, none)

end ConstPromotion
