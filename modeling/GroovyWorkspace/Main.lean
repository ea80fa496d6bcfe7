import GroovyWorkspace.CommandLine.Program
import GroovyWorkspace.FileSystem.Edit

/-!
# The command line

Reads what a command needs from disk, runs the program on it, and prints. Only the settings files are
read in full; of all other files it is enough to know that they are there.
-/

namespace GroovyWorkspace.CommandLine

def placeText (place : Place) : String := (FileSystem.pathOf place).display

/-- What stands at a place on disk, links not being followed. -/
def typeOnDisk (place : Place) : IO (Option IO.FS.FileType) := do
  try
    let m ← ((← IO.currentDir) / placeText place).symlinkMetadata
    return some m.type
  catch _ => return none

def namesOnDisk (place : Place) : IO (Option (List String)) := do
  try
    let entries ← ((← IO.currentDir) / placeText place).readDir
    return some (entries.toList.map (·.fileName))
  catch _ => return none

/-- The file at a place on disk, locked if it cannot be read. Without `whole` it is left empty. -/
def fileOnDisk (whole : Bool) (place : Place) : IO Node := do
  if ¬ whole then return .file .empty
  try return .file (← IO.FS.readBinFile (placeText place))
  catch _ => return .file .empty true

def linkOnDisk (place : Place) : IO Path := do
  let target ← IO.FS.realPath (placeText place)
  return Path.ofString target.toString

/-- Puts a node at a place where nothing is yet. -/
def plant (fs : FileSystem) (place : Place) (node : Node) : FileSystem :=
  if (fs.node? place).isSome then fs else fs.alter place fun _ => some node

/-- Copies what steps from a place lead to, and the folders on the way. Gives the place that is
reached. -/
partial def copySteps (whole : Bool) : Place → List Step → FileSystem → IO (FileSystem × Place)
  | place, [], fs => return (fs, place)
  | place, .here :: rest, fs => copySteps whole place rest fs
  | place, .folder :: rest, fs => copySteps whole place rest fs
  | place, .up :: rest, fs => copySteps whole place.dropLast rest fs
  | place, .name n :: rest, fs => do
    let next := place ++ [n]
    match ← typeOnDisk next with
    | none => return (fs, next)
    | some .dir =>
      let readable := (← namesOnDisk next).isSome
      let passable := (← typeOnDisk (next ++ [[dot]])).isSome
      copySteps whole next rest (plant fs next (.folder [] { readable, passable }))
    | some .symlink =>
      let target ← linkOnDisk next
      let fs := plant fs next (.link target)
      if target.same (FileSystem.pathOf next) then return (fs, next)
      else copySteps whole [] (target.steps ++ rest) fs
    | some _ => return (plant fs next (← fileOnDisk whole next), next)

def copyPath (whole : Bool) (fs : FileSystem) (p : Path) : IO (FileSystem × Place) :=
  copySteps whole (if p.isAbsolute then [] else fs.current) p.steps fs

/-- Copies the entries of a folder, and those of the folders in it if `deep` holds. -/
partial def copyFolder (deep : Bool) (place : Place) (fs : FileSystem) : IO FileSystem := do
  let mut fs := fs
  for name in (← namesOnDisk place).getD [] do
    let (copied, inner) ← copySteps false place [.name (Text.encode name)] fs
    fs := copied
    if deep && inner == place ++ [Text.encode name] then
      match fs.node? inner with
      | some (.folder ..) => fs ← copyFolder deep inner fs
      | _ => pure ()
  return fs

/-- Copies what a command needs: the settings files, the library folder that they name, and for the
sources the whole workspace. -/
def copyFor (e : Environment) (o : Options) (command : Command) (fs : FileSystem) :
    IO FileSystem := do
  let .ok workspace := Setup.workspaceOf fs o | return fs
  let (fs, root) ← copyPath false fs workspace
  let (fs, _) ← copyPath true fs (workspace.join Settings.workspaceFile)
  let fs ←
    match Setup.userFileOf e o with
    | some file => do
      let (fs, _) ← copyPath true fs file
      pure fs
    | none => pure fs
  match Setup.ofOptions fs e o with
  | .error _ => return fs
  | .ok s =>
    let fs ←
      match s.settings.toStore.getString? librariesKey with
      | some folder => do
        let (fs, place) ← copyPath false fs (Path.ofString folder)
        copyFolder false place fs
      | none => pure fs
    match command with
    | .sources _ => copyFolder true root fs
    | _ => return fs

/-- The folder of the user's configuration: the one that `XDG_CONFIG_HOME` names if it is absolute, or
else `.config` in the home folder. -/
def configFolderOnDisk : IO (Option Path) := do
  let home := (← IO.getEnv "HOME").filter fun s => s ≠ ""
  let config := ((← IO.getEnv "XDG_CONFIG_HOME").map Path.ofString).filter Path.isAbsolute
  return config.orElse fun _ => home.map fun s => (Path.ofString s).join (Path.ofString ".config")

/-- The variables that the program looks at, and the folder of the user's configuration. -/
def environmentOnDisk : IO Environment := do
  let mut e : Environment := { configFolder := ← configFolderOnDisk }
  for name in ["GROOVY_ADDITIONAL_LIBRARIES", "CLICOLOR_FORCE"] do
    if let some v ← IO.getEnv name then e := e.set name v
  return e

def runOnDisk (args : List String) : IO UInt32 := do
  let e ← environmentOnDisk
  let here := Path.ofString (← IO.currentDir).toString
  let (fs, current) ← copyPath false {} here
  let fs := { fs with current }
  let fs ←
    match Invocation.ofArguments args with
    | .ok (.run o (some command)) => copyFor e o command fs
    | _ => pure fs
  let outcome := run fs e args
  if let .text text := outcome.out then IO.print text
  IO.eprint outcome.err
  return outcome.exit.toUInt32

end GroovyWorkspace.CommandLine

def main (args : List String) : IO UInt32 := GroovyWorkspace.CommandLine.runOnDisk args
