import GroovyWorkspace.Library.CompilerConfig
import GroovyWorkspace.Path.Map

/-!
# Compilation units

A configuration and the sources compiled with it, at most one for a path.
-/

namespace GroovyWorkspace

/-- Where the text of a source is taken from. -/
inductive Origin where
  | disk
  | buffer (text : String)
  deriving DecidableEq, Repr, Inhabited

structure Source where
  path : Path
  origin : Origin
  deriving DecidableEq, Repr, Inhabited

namespace Source

/-- Whether the text is that of a buffer. -/
def isOpen (s : Source) : Bool :=
  match s.origin with
  | .buffer _ => true
  | .disk => false

def document (s : Source) : Except DocumentError Json.Document := do
  let path ← s.path.document
  match s.origin with
  | .disk => .ok (.record [("path", path), ("origin", .text "disk")])
  | .buffer text =>
    .ok (.record [("path", path), ("origin", .text "open"), ("contents", .text text)])

end Source

/-- A configuration with sources. -/
structure CompilationUnit where
  config : CompilerConfig
  table : PathMap Source := {}
  deriving Repr, Inhabited

namespace CompilationUnit

/-- Adds a source in place of any source at its path. -/
def add (u : CompilationUnit) (s : Source) : CompilationUnit :=
  { u with table := u.table.insert s.path s }

def remove (u : CompilationUnit) (p : Path) : CompilationUnit := { u with table := u.table.erase p }

def contains (u : CompilationUnit) (p : Path) : Bool := u.table.contains p

/-- Removes the sources at some paths, and counts those that were there. -/
def removeAll (u : CompilationUnit) (ps : List Path) : CompilationUnit × Nat :=
  ps.foldl (fun r p => (r.1.remove p, if r.1.contains p then r.2 + 1 else r.2)) (u, 0)

def source? (u : CompilationUnit) (p : Path) : Option Source := u.table.get? p

def sources (u : CompilationUnit) : List Source := u.table.values

def size (u : CompilationUnit) : Nat := u.table.size

end CompilationUnit
end GroovyWorkspace
