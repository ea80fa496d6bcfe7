import GroovyWorkspace.Library.FolderCheck
import GroovyWorkspace.Path.Order
import GroovyWorkspace.Text.Lowercase

/-!
# Library folders

A folder that can be opened, and the jars in it: the files directly inside whose names end in `.jar`,
whatever the case of the letters, in the order of their paths. A folder that has been opened once is
opened again to be read, and reading it may still break off.
-/

namespace GroovyWorkspace

/-- Why an operation on the classpath fails. -/
inductive ClasspathError where
  | io (path : Path) (cause : OsError)
  | invalidEntry (entry : Path)
  deriving DecidableEq, Repr

def ClasspathError.message : ClasspathError → String
  | io path cause => "I/O error at " ++ path.display ++ ": " ++ cause.message
  | invalidEntry entry =>
    "Classpath entry " ++ entry.display ++ " cannot be joined: path segment contains separator `:`"

/-- A folder with libraries. -/
structure LibraryFolder where
  path : Path
  deriving DecidableEq, Repr

namespace LibraryFolder

/-- The folder at a path, if it can be opened. It is not read. -/
def open? (fs : FileSystem) (path : Path) : Option LibraryFolder :=
  if fs.isFolder path ∧ (fs.openFolder path).isOk then some ⟨path⟩ else none

/-- The folder that the setting in a store names, if it can be opened. -/
def ofStore? (fs : FileSystem) (store : Store) : Option LibraryFolder :=
  (resolveFolder? fs store).bind (open? fs)

def isJarName (name : Name) : Bool :=
  ".jar".toList.isSuffixOf (Text.lowercase (Text.decodeLossy name)).toList

def jarPaths (fs : FileSystem) (path : Path) (entries : List (Name × Node)) : List Path :=
  entries.filterMap fun e =>
    if isJarName e.1 ∧ fs.isFile (path.child e.1) then some (path.child e.1) else none

/-- The jars of the folder. There are none to be had if it cannot be opened, or if reading it breaks
off. -/
def jars (fs : FileSystem) (folder : LibraryFolder) : Except ClasspathError (List Path) :=
  match fs.list folder.path with
  | .error e => .error (.io folder.path e)
  | .ok entries => .ok (Path.sort (jarPaths fs folder.path entries))

end LibraryFolder
end GroovyWorkspace
