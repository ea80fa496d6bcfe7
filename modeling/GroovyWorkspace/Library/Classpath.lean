import GroovyWorkspace.Library.Folder

/-!
# Classpaths

Paths of libraries in order, none of them twice. A classpath is handed over as one text with colons
between its entries, so an entry must not have a colon in it.
-/

namespace GroovyWorkspace

/-- The byte that divides the entries of a classpath. -/
def colon : UInt8 := 58

/-- Entries in order. -/
structure Classpath where
  entries : List Path := []
  deriving DecidableEq, Repr, Inhabited

namespace Classpath

def empty : Classpath := {}

/-- Adds an entry at the end, unless it is there already in some spelling. -/
def push (c : Classpath) (p : Path) : Classpath :=
  if c.entries.any p.same then c else ⟨c.entries ++ [p]⟩

def extend (c : Classpath) (ps : List Path) : Classpath := ps.foldl push c

def ofList (ps : List Path) : Classpath := empty.extend ps

/-- The jars of a folder; nothing if there is no folder. -/
def ofFolder (fs : FileSystem) : Option LibraryFolder → Except ClasspathError Classpath
  | none => .ok empty
  | some folder => (folder.jars fs).map ofList

/-- Whether an entry has a colon in it. -/
def isDivided (p : Path) : Bool := p.bytes.contains colon

/-- Paths with colons between them. -/
def joinBytes : List Path → List UInt8
  | [] => []
  | [p] => p.bytes
  | p :: ps => p.bytes ++ colon :: joinBytes ps

/-- Paths as one path list. There is none if one of them has a colon in it. -/
def join? (ps : List Path) : Option Path := if ps.any isDivided then none else some ⟨joinBytes ps⟩

/-- The classpath as one path list. If there is none, the first entry is blamed that has none even by
itself. -/
def joined (c : Classpath) : Except ClasspathError Path :=
  match join? c.entries with
  | some list => .ok list
  | none => .error (.invalidEntry ((c.entries.find? fun p => (join? [p]).isNone).getD ⟨[]⟩))

end Classpath
end GroovyWorkspace
