import GroovyWorkspace.FileSystem.Edit
import GroovyWorkspace.Json.Printer
import GroovyWorkspace.Library.FolderCheck
import GroovyWorkspace.Settings.Load

/-!
# Scratch workspaces

A folder of its own in which workspaces are built to try things out on. What an operation did before
it failed stays done, so each gives the file system in any case.
-/

namespace GroovyWorkspace

/-- A scratch workspace. -/
structure Fixture where
  root : Path
  deriving DecidableEq, Repr, Inhabited

namespace Fixture

def path (f : Fixture) (relative : String) : Path := f.root.join (Path.ofString relative)

def create (f : Fixture) (fs : FileSystem) : FileSystem := (fs.ensureFolders f.root).1

def remove (f : Fixture) (fs : FileSystem) : FileSystem := ((fs.remove f.root).toOption).getD fs

/-- Writes a file where its folder is. -/
def writeAt (fs : FileSystem) (p : Path) (text : String) : FileSystem × Except OsError Path :=
  match fs.write p text.toUTF8 with
  | .ok fs => (fs, .ok p)
  | .error e => (fs, .error e)

/-- Writes a file and makes the folders that it stands in. -/
def writeFile (f : Fixture) (fs : FileSystem) (relative text : String) :
    FileSystem × Except OsError Path :=
  let p := f.path relative
  match p.parent? with
  | none => writeAt fs p text
  | some parent =>
    match fs.ensureFolders parent with
    | (fs, none) => writeAt fs p text
    | (fs, some e) => (fs, .error e)

def makeFolder (f : Fixture) (fs : FileSystem) (relative : String) :
    FileSystem × Except OsError Path :=
  let p := f.path relative
  match fs.ensureFolders p with
  | (fs, none) => (fs, .ok p)
  | (fs, some e) => (fs, .error e)

/-- Writes empty files in a folder, up to the first that cannot be written. -/
def fillFolder (folder : Path) : FileSystem → List String → FileSystem × Except OsError Path
  | fs, [] => (fs, .ok folder)
  | fs, name :: names =>
    match writeAt fs (folder.join (Path.ofString name)) "" with
    | (fs, .ok _) => fillFolder folder fs names
    | (fs, .error e) => (fs, .error e)

/-- Makes a folder with empty files. -/
def makeLibrary (f : Fixture) (fs : FileSystem) (relative : String) (names : List String) :
    FileSystem × Except OsError Path :=
  match f.makeFolder fs relative with
  | (fs, .ok folder) => fillFolder folder fs names
  | failed => failed

/-- The text of a settings file that names a library folder. -/
def settingsText (folder : Path) : String :=
  String.ofList (Json.compact (.record [(librariesKey, .text folder.display)]))

/-- Writes the settings file of the workspace so that it names a library folder. -/
def writeSettings (f : Fixture) (fs : FileSystem) (folder : Path) :
    FileSystem × Except OsError Path :=
  f.writeFile fs Settings.workspaceFile.display (settingsText folder)

/-- Settings that give the library folder a value. -/
def settingsWith (v : Value) : Settings := Settings.empty.insert librariesKey v

def isPresent (f : Fixture) (fs : FileSystem) (relative : String) : Bool :=
  fs.isPresent (f.path relative)

def absenceMessage (f : Fixture) (relative : String) : String :=
  "Expected file to exist: " ++ (f.path relative).display

end Fixture
end GroovyWorkspace
