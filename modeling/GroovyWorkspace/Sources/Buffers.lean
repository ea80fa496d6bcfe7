import GroovyWorkspace.Path.Map

/-!
# Editor buffers

The buffers open in the editor, with their texts, and the paths that have changed since the caller
last rebuilt. Opening, editing and closing a buffer all mark its path.
-/

namespace GroovyWorkspace

structure Buffers where
  texts : PathMap String := {}
  changed : PathMap Unit := {}
  deriving Repr, Inhabited

namespace Buffers

def empty : Buffers := {}

def mark (b : Buffers) (p : Path) : Buffers := { b with changed := b.changed.insert p () }

/-- Opens a buffer, or replaces its text. -/
def put (b : Buffers) (p : Path) (text : String) : Buffers :=
  { texts := b.texts.insert p text, changed := b.changed.insert p () }

/-- Closes a buffer. The path is marked even if it was not open. -/
def close (b : Buffers) (p : Path) : Buffers :=
  { texts := b.texts.erase p, changed := b.changed.insert p () }

/-- Forgets the changes. -/
def reset (b : Buffers) : Buffers := { b with changed := {} }

def text? (b : Buffers) (p : Path) : Option String := b.texts.get? p

def isOpen (b : Buffers) (p : Path) : Bool := b.texts.contains p

def isChanged (b : Buffers) (p : Path) : Bool := b.changed.contains p

def openPaths (b : Buffers) : List Path := b.texts.keys

def changedPaths (b : Buffers) : List Path := b.changed.keys

end Buffers
end GroovyWorkspace
