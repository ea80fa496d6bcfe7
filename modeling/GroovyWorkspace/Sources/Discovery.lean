import GroovyWorkspace.FileSystem.Walk
import GroovyWorkspace.Path.Order

/-!
# Finding sources

The Groovy files below a root: files, and links to files, whose path ends in `.groovy`.
-/

namespace GroovyWorkspace

/-- Whether the text of a path ends like that of a Groovy file. -/
def Path.isGroovy (p : Path) : Bool := ".groovy".toList.isSuffixOf p.display.toList

/-- Whether a walk has met a Groovy file. -/
def FileSystem.isSource (fs : FileSystem) (v : Visit) : Bool :=
  v.path.isGroovy && (v.kind = .file || v.kind = .link && fs.isFile v.path)

/-- The Groovy files below a root, in the order of their paths. A root that is one itself is all
there is. -/
def FileSystem.groovyFiles (fs : FileSystem) (root : Path) : Except OsError (List Path) := do
  let visits ← fs.walk root
  .ok (Path.sort ((visits.filter fs.isSource).map Visit.path))

end GroovyWorkspace
