import GroovyWorkspace.Path.Normal
import GroovyWorkspace.Sources.Buffers
import GroovyWorkspace.Sources.Discovery
import GroovyWorkspace.Sources.Unit

/-!
# Building compilation units

A factory keeps the unit it built last. While it has one, building again replaces only the sources
whose paths have changed. Another library folder makes it start afresh, since the classpath of a
unit is fixed.
-/

namespace GroovyWorkspace

/-- The unit built last, and the library folder. -/
structure UnitFactory where
  cached : Option CompilationUnit := none
  library : Option LibraryFolder := none
  deriving Repr, Inhabited

namespace CompilationUnit

/-- Adds the files on disk that are wanted and not open. -/
def addFiles (wanted : Path → Bool) (buffers : Buffers) (files : List Path) (u : CompilationUnit) :
    CompilationUnit :=
  files.foldl (fun u p => if ¬ buffers.isOpen p ∧ wanted p then u.add ⟨p, .disk⟩ else u) u

def addBuffer (buffers : Buffers) (u : CompilationUnit) (p : Path) : CompilationUnit :=
  match buffers.text? p with
  | some text => u.add ⟨p, .buffer text⟩
  | none => u

def addBuffers (wanted : Path → Bool) (buffers : Buffers) (u : CompilationUnit) : CompilationUnit :=
  buffers.openPaths.foldl (fun u p => if wanted p then u.addBuffer buffers p else u) u

/-- The Groovy files of a root as far as they can be found. -/
def filesOf (fs : FileSystem) (root : Path) : List Path :=
  if fs.isPresent root then (fs.groovyFiles root).toOption.getD [] else []

/-- Whether a path lies below a root, by spelling alone. -/
def isBelow (root p : Path) : Bool := p.normalize.startsWith root.normalize

/-- Adds the sources that are wanted: the files and open buffers below a root, or all open buffers if
there is no root. -/
def addSources (fs : FileSystem) (wanted : Path → Bool) (buffers : Buffers) (u : CompilationUnit) :
    Option Path → CompilationUnit
  | some root =>
    (u.addFiles wanted buffers (filesOf fs root)).addBuffers
      (fun p => isBelow root p && wanted p) buffers
  | none => u.addBuffers wanted buffers

end CompilationUnit

namespace UnitFactory

/-- A factory without unit and library folder. -/
def empty : UnitFactory := {}

/-- Forgets the unit. -/
def invalidate (f : UnitFactory) : UnitFactory := { f with cached := none }

/-- Uses another library folder, if there is one; otherwise nothing changes. Says whether there was. -/
def useLibrary (f : UnitFactory) : Option LibraryFolder → UnitFactory × Bool
  | some folder => ({ cached := none, library := some folder }, true)
  | none => (f, false)

/-- Uses the folder at a path, if it can be opened. -/
def setLibrary (fs : FileSystem) (f : UnitFactory) (path : Option String) : UnitFactory × Bool :=
  f.useLibrary (path.bind fun s => LibraryFolder.open? fs (Path.ofString s))

/-- Uses the folder that the setting in a store names, if it can be opened. -/
def applySettings (fs : FileSystem) (f : UnitFactory) (store : Store) : UnitFactory × Bool :=
  f.useLibrary (LibraryFolder.ofStore? fs store)

/-- Keeps a unit that has been built. -/
def keep (f : UnitFactory) (u : CompilationUnit) : UnitFactory × Except ClasspathError CompilationUnit :=
  ({ f with cached := some u }, .ok u)

/-- Builds the unit, or brings it up to date. The unit that is there is taken out of the factory first,
and the one that has been built is put in at the end. The factory comes with a failure too. -/
def build (fs : FileSystem) (f : UnitFactory) (root : Option Path) (buffers : Buffers) :
    UnitFactory × Except ClasspathError CompilationUnit :=
  let taken := f.invalidate
  match f.cached with
  | some u =>
    taken.keep ((u.removeAll buffers.changedPaths).1.addSources fs buffers.isChanged buffers root)
  | none =>
    match CompilerConfig.ofLibrary fs taken.library with
    | .ok config =>
      taken.keep (({ config } : CompilationUnit).addSources fs (fun _ => true) buffers root)
    | .error e => (taken, .error e)

/-- The unit that is built, with the factory that keeps it, or why there is none. -/
def create (fs : FileSystem) (f : UnitFactory) (root : Option Path) (buffers : Buffers) :
    Except ClasspathError (CompilationUnit × UnitFactory) :=
  match f.build fs root buffers with
  | (after, .ok unit) => .ok (unit, after)
  | (_, .error e) => .error e

end UnitFactory
end GroovyWorkspace
