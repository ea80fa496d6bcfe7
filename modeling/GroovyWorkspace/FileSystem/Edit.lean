import GroovyWorkspace.FileSystem.Lookup

/-!
# Changing a file system

Writing files, making folders and links, locking and removing. Each operation gives the changed file
system or says why it failed; a failed operation changes nothing, except that folders made on the
way stay. Who may pass through a folder may also change what is in it.
-/

namespace GroovyWorkspace.FileSystem

/-- Writes a file in place of any contents it had. A link is followed, also to a file that is not
there yet. -/
def write (fs : FileSystem) (p : Path) (contents : ByteArray) : Except OsError FileSystem := do
  match ← fs.locate p true with
  | .found place (.file _ locked) =>
    if locked then .error .denied else .ok (fs.alter place fun _ => some (.file contents))
  | .found .. => .error .isADirectory
  | .absent parent name slash =>
    if slash then .error .isADirectory
    else .ok (fs.alter (parent ++ [name]) fun _ => some (.file contents))

/-- Puts a new node where nothing is. -/
def create (fs : FileSystem) (p : Path) (node : Node) : Except OsError FileSystem := do
  match ← fs.locate p false with
  | .found .. => .error .alreadyThere
  | .absent parent name _ => .ok (fs.alter (parent ++ [name]) fun _ => some node)

/-- Makes a folder where nothing is. -/
def makeFolder (fs : FileSystem) (p : Path) : Except OsError FileSystem :=
  fs.create p (.folder [])

/-- Makes a folder unless there is one, when its parent is there. -/
def ensureFolder (fs : FileSystem) (p : Path) : Except OsError FileSystem :=
  match fs.makeFolder p with
  | .ok fs => .ok fs
  | .error e => if fs.isFolder p then .ok fs else .error e

/-- Makes a folder and the folders it stands in, unless they are there. The file system that comes
with a failure has the folders that were made before it. `fuel` bounds the number of folders. -/
def ensureFoldersUpTo : Nat → FileSystem → Path → FileSystem × Option OsError
  | 0, fs, _ => (fs, some .nameTooLong)
  | fuel + 1, fs, p =>
    if p.bytes = [] then (fs, none)
    else
      match fs.makeFolder p with
      | .ok made => (made, none)
      | .error .notFound =>
        match p.parent? with
        | none => (fs, some .notFound)
        | some parent =>
          match ensureFoldersUpTo fuel fs parent with
          | (made, some e) => (made, some e)
          | (made, none) =>
            match made.ensureFolder p with
            | .ok made => (made, none)
            | .error e => (made, some e)
      | .error e => if fs.isFolder p then (fs, none) else (fs, some e)

/-- Makes a folder and the folders it stands in, unless they are there. -/
def ensureFolders (fs : FileSystem) (p : Path) : FileSystem × Option OsError :=
  ensureFoldersUpTo (p.bytes.length + 1) fs p

/-- Makes a link where nothing is. -/
def makeLink (fs : FileSystem) (p target : Path) : Except OsError FileSystem :=
  fs.create p (.link target)

/-- Locks or unlocks what a path leads to. -/
def setLocked (fs : FileSystem) (p : Path) (locked : Bool) : Except OsError FileSystem := do
  let (place, _) ← fs.find p
  .ok (fs.alter place fun
    | some (.file contents _) => some (.file contents locked)
    | some (.folder entries access) =>
      some (.folder entries { access with readable := !locked, passable := !locked })
    | other => other)

/-- Removes a file, a link or a folder with all that is in it. -/
def remove (fs : FileSystem) (p : Path) : Except OsError FileSystem := do
  let (place, _) ← fs.find p false
  .ok (fs.alter place fun _ => none)

def changeFolder (fs : FileSystem) (p : Path) : Except OsError FileSystem := do
  match ← fs.find p with
  | (place, .folder _ access) =>
    if access.passable then .ok { fs with current := place } else .error .denied
  | _ => .error .notADirectory

end GroovyWorkspace.FileSystem
