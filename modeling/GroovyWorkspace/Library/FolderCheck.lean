import GroovyWorkspace.FileSystem.Lookup
import GroovyWorkspace.Settings.Basic

/-!
# The configured library folder

One setting names a folder with additional libraries. It counts only if it is a string that is not
empty and leads to a folder; every other outcome means that there is no additional folder.
-/

namespace GroovyWorkspace

/-- The key of the setting that names the library folder. -/
def librariesKey : String := "groovy.additional.libraries"

/-- What becomes of the setting that names the library folder. -/
inductive FolderCheck where
  | notConfigured
  | notAString
  | missing (path : Path)
  | notADirectory (path : Path)
  | resolved (path : Path)
  deriving DecidableEq, Repr

namespace FolderCheck

def resolved? : FolderCheck → Option Path
  | resolved path => some path
  | _ => none

def isResolved (c : FolderCheck) : Bool := c.resolved?.isSome

/-- The path in the setting, whatever stands there. -/
def configured? : FolderCheck → Option Path
  | missing path | notADirectory path | resolved path => some path
  | notConfigured | notAString => none

def message : FolderCheck → String
  | notConfigured => librariesKey ++ " is not set"
  | notAString => librariesKey ++ " is not a string"
  | missing path => path.display ++ " does not exist"
  | notADirectory path => path.display ++ " is not a directory"
  | resolved path => path.display ++ " is a directory"

/-- What stands at a configured path. -/
def ofPath (fs : FileSystem) (path : Path) : FolderCheck :=
  match fs.kind path with
  | .ok .folder => .resolved path
  | .ok _ => .notADirectory path
  | .error _ => .missing path

/-- Checks the value of the setting. The path is the configured text, unchanged. -/
def ofValue (fs : FileSystem) : Option Value → FolderCheck
  | none | some .null => .notConfigured
  | some (.string s) => if s = "" then .notConfigured else ofPath fs (Path.ofString s)
  | some _ => .notAString

def ofStore (fs : FileSystem) (store : Store) : FolderCheck := ofValue fs (store.get? librariesKey)

end FolderCheck

/-- The configured library folder, if it is a folder. -/
def resolveFolder? (fs : FileSystem) (store : Store) : Option Path :=
  (FolderCheck.ofStore fs store).resolved?

end GroovyWorkspace
