import GroovyWorkspace.FileSystem.Lookup

/-!
# Walking through a folder

All that stands in a folder and, at any depth, in the folders inside it. Links are listed and not
followed, except for the path the walk starts from. A folder below the start that cannot be opened is
passed over, and so is what reading a folder breaks off with.
-/

namespace GroovyWorkspace

/-- Something met on a walk. -/
structure Visit where
  path : Path
  kind : Kind
  deriving DecidableEq, Repr

namespace Node

mutual

/-- What a walk meets at a node and below it. A folder is opened at its path, so that all folders above it
must be passable; `reached` says whether they are. -/
def visits (path : Path) (reached : Bool) : Node → List Visit
  | .file .. => [⟨path, .file⟩]
  | .link _ => [⟨path, .link⟩]
  | .folder entries access =>
    ⟨path, .folder⟩ ::
      if reached ∧ access.readable ∧ path.bytes.length ≤ maxPath then
        entryVisits path access.passable entries
      else []

/-- What a walk meets in the entries of a folder. -/
def entryVisits (path : Path) (reached : Bool) : List (Name × Node) → List Visit
  | [] => []
  | (name, node) :: rest => visits (path.child name) reached node ++ entryVisits path reached rest

end

/-- What a walk meets that starts at a node. A folder has to be opened for it. -/
def visitsFrom (root : Path) (kind : Kind) : Node → Except OsError (List Visit)
  | folder entries access => do
    let listing ← (folder entries access).listing
    .ok (⟨root, kind⟩ :: entryVisits root access.passable listing.entries)
  | _ => .ok [⟨root, kind⟩]

end Node

/-- What a walk from `root` meets. A link there is met as that, and the walk goes on from what it leads to.
Only a start that cannot be seen, or is a folder that cannot be opened, is a failure. -/
def FileSystem.walk (fs : FileSystem) (root : Path) : Except OsError (List Visit) := do
  let (_, start) ← fs.find root false
  let (_, node) ← fs.find root
  node.visitsFrom root start.kind

end GroovyWorkspace
