import GroovyWorkspace.CommandLine.Invocation
import GroovyWorkspace.Library.CompilerConfig
import GroovyWorkspace.Settings.Load

/-!
# The setup of a command

The workspace and the settings that a command works from: the user's settings file, that of the
workspace, and above them the library folder given on the command line or in the environment.
-/

namespace GroovyWorkspace.CommandLine

inductive CommandError where
  | settings (e : LoadError)
  | classpath (e : ClasspathError)
  | document (e : DocumentError)
  | io (e : OsError)
  deriving DecidableEq, Repr

def CommandError.message : CommandError → String
  | settings e => e.message
  | classpath e => e.message
  | document e => e.message
  | io e => e.message

/-- What a command finds around it: the environment variables that are set, and the folder of the user's
configuration, if the system knows one. -/
structure Environment where
  bindings : List (String × String) := []
  configFolder : Option Path := none
  deriving DecidableEq, Repr, Inhabited

namespace Environment

def get? (e : Environment) (name : String) : Option String := e.bindings.lookup name

def set (e : Environment) (name value : String) : Environment :=
  { e with bindings := (name, value) :: e.bindings.filter fun v => v.1 ≠ name }

/-- Whether output has colours although it does not go to a terminal. -/
def forcesColour (e : Environment) : Bool :=
  match e.get? "CLICOLOR_FORCE" with
  | some v => v ≠ "0"
  | none => false

/-- The library folder that stands above the settings files: that of the options, or else that of the
environment. An empty one is none. -/
def override? (e : Environment) (o : Options) : Option String :=
  (o.additionalLibraries.orElse fun _ => e.get? "GROOVY_ADDITIONAL_LIBRARIES").filter fun s => s ≠ ""

end Environment

structure Setup where
  workspace : Path
  settings : LayeredSettings
  deriving Repr, Inhabited

namespace Setup

/-- Puts a library folder above the settings files. -/
def withOverride (l : LayeredSettings) : Option String → LayeredSettings
  | some folder => l.push .override (Settings.empty.insert librariesKey (.string folder))
  | none => l

/-- The workspace that options ask for: the current folder unless another is given. -/
def workspaceOf (fs : FileSystem) (o : Options) : Except OsError Path :=
  match o.workspace with
  | some folder => .ok folder
  | none => fs.currentFolder

/-- The user's settings file that options ask for: that of the editor unless another is given. -/
def userFileOf (e : Environment) (o : Options) : Option Path :=
  o.userSettings.orElse fun _ => e.configFolder.map Settings.userFile

def ofOptions (fs : FileSystem) (e : Environment) (o : Options) : Except CommandError Setup := do
  let workspace ← (workspaceOf fs o).mapError .io
  let l ← (LayeredSettings.discover fs (userFileOf e o) (some workspace)).mapError .settings
  .ok ⟨workspace, withOverride l (e.override? o)⟩

end Setup
end GroovyWorkspace.CommandLine
