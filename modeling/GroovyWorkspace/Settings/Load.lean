import GroovyWorkspace.FileSystem.Lookup
import GroovyWorkspace.Json.Decorated
import GroovyWorkspace.Json.Reader
import GroovyWorkspace.Settings.Layered
import GroovyWorkspace.Text.Lowercase
import GroovyWorkspace.Toml.Document
import GroovyWorkspace.Yaml.Document

/-!
# Loading settings

Settings files in three formats, told apart by the extension of the file name whatever its case. A
blank file is an empty document in every format, and in no format at all.
-/

namespace GroovyWorkspace

inductive Format where
  | json
  | toml
  | yaml
  deriving DecidableEq, Repr

namespace Format

def name : Format → String
  | json => "JSON"
  | toml => "TOML"
  | yaml => "YAML"

/-- The format that an extension in lower case stands for. -/
def ofExtension? (extension : String) : Option Format :=
  if extension = "json" then some .json
  else if extension = "toml" then some .toml
  else if extension = "yaml" ∨ extension = "yml" then some .yaml
  else none

end Format

/-- What is wrong with a text. Only for JSON is it known in detail. -/
inductive SyntaxError where
  | json (e : Json.Error)
  | toml
  | yaml
  deriving DecidableEq, Repr

namespace SyntaxError

/-- The format that the text was read as. -/
def format : SyntaxError → Format
  | json _ => .json
  | toml => .toml
  | yaml => .yaml

def message : SyntaxError → String
  | json e => e.message
  | toml => "invalid TOML"
  | yaml => "invalid YAML"

end SyntaxError

inductive LoadError where
  | io (path : Path) (cause : OsError)
  | parse (path : Path) (cause : SyntaxError)
  | unsupportedFormat (extension : String)
  | notAnObject (path : Path)
  deriving DecidableEq, Repr

def LoadError.message : LoadError → String
  | io path cause => "I/O error at " ++ path.display ++ ": " ++ cause.message
  | parse path cause =>
    "Failed to parse " ++ cause.format.name ++ " settings at " ++ path.display ++ ": " ++ cause.message
  | unsupportedFormat extension => "Unsupported settings format: " ++ extension
  | notAnObject path => "Settings document at " ++ path.display ++ " is not an object"

namespace Format

def read (text : String) : Format → Except SyntaxError Value
  | json =>
    match Json.parse (Json.Decorated.plain text.toList) with
    | .ok v => .ok v
    | .error e => .error (.json e)
  | toml =>
    match Toml.parse? text with
    | some v => .ok v
    | none => .error .toml
  | yaml =>
    match Yaml.parse? text with
    | some v => .ok v
    | none => .error .yaml

end Format

namespace Settings

/-- The extension by which the format of a file is told, in lower case. -/
def extensionOf (p : Path) : String :=
  Text.lowercase ((p.extension?.bind Text.decode?).getD "")

def ofText (p : Path) (text : String) : Except LoadError Settings :=
  if Text.isAllBlank text then .ok empty
  else
    match Format.ofExtension? (extensionOf p) with
    | none => .error (.unsupportedFormat (extensionOf p))
    | some format =>
      match format.read text with
      | .error e => .error (.parse p e)
      | .ok v =>
        match ofValue? v with
        | some s => .ok s
        | none => .error (.notAnObject p)

def load (fs : FileSystem) (p : Path) : Except LoadError Settings :=
  match fs.readText p with
  | .ok text => ofText p text
  | .error e => .error (.io p e)

def loadOptional (fs : FileSystem) (p : Path) : Except LoadError (Option Settings) :=
  match fs.readText p with
  | .ok text => (ofText p text).map some
  | .error .notFound => .ok none
  | .error e => .error (.io p e)

def workspaceFile : Path := Path.ofString ".vscode/settings.json"

/-- The user's settings file, in the folder of the user's configuration. -/
def userFile (config : Path) : Path :=
  ((config.join (Path.ofString "Code")).join (Path.ofString "User")).join
    (Path.ofString "settings.json")

end Settings

namespace LayeredSettings

def pushFile (l : LayeredSettings) (fs : FileSystem) (scope : Scope) (p : Path) :
    Except LoadError LayeredSettings := do
  match ← Settings.loadOptional fs p with
  | some s => .ok (l.push scope s)
  | none => .ok l

/-- The user's settings file and that of a workspace, as far as they are there. -/
def discover (fs : FileSystem) (user workspace : Option Path) : Except LoadError LayeredSettings := do
  let l ←
    match user with
    | some p => empty.pushFile fs .user p
    | none => .ok empty
  match workspace with
  | some root => l.pushFile fs .workspace (root.join Settings.workspaceFile)
  | none => .ok l

end LayeredSettings
end GroovyWorkspace
