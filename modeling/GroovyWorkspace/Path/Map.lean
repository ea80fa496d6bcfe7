import GroovyWorkspace.Path.Order

/-!
# Maps over paths

A table from paths to values, in the order of the paths. Paths with the same components are one key,
and the key keeps the spelling with which it came in.
-/

namespace GroovyWorkspace

/-- A table of values by path. -/
structure PathMap (α : Type) where
  entries : List (Path × α) := []
  deriving Repr, Inhabited

namespace PathMap

variable {α : Type}

def empty : PathMap α := {}

def findIn (p : Path) : List (Path × α) → Option α
  | [] => none
  | (q, v) :: rest => if p.same q then some v else findIn p rest

def get? (m : PathMap α) (p : Path) : Option α := findIn p m.entries

def contains (m : PathMap α) (p : Path) : Bool := (m.get? p).isSome

/-- Gives a path a value in a sorted list of entries. -/
def insertIn (p : Path) (v : α) : List (Path × α) → List (Path × α)
  | [] => [(p, v)]
  | (q, w) :: rest =>
    match p.compare q with
    | .lt => (p, v) :: (q, w) :: rest
    | .eq => (q, v) :: rest
    | .gt => (q, w) :: insertIn p v rest

/-- Gives a path a value. A path that has one already keeps its spelling. -/
def insert (m : PathMap α) (p : Path) (v : α) : PathMap α := ⟨insertIn p v m.entries⟩

def erase (m : PathMap α) (p : Path) : PathMap α :=
  ⟨m.entries.filter fun e => ¬ p.same e.1⟩

def keys (m : PathMap α) : List Path := m.entries.map Prod.fst

/-- The values, in the order of their paths. -/
def values (m : PathMap α) : List α := m.entries.map Prod.snd

def size (m : PathMap α) : Nat := m.entries.length

end PathMap
end GroovyWorkspace
