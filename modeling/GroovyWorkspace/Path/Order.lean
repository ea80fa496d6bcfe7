import GroovyWorkspace.Path.Basic

/-!
# The order of paths

Paths are ordered by their components: the root comes first, then `.`, then `..`, then names by their
bytes. So a folder comes before what is in it, and `a/b` before `a b`.
-/

namespace GroovyWorkspace

def compareBytes : List UInt8 → List UInt8 → Ordering
  | [], [] => .eq
  | [], _ :: _ => .lt
  | _ :: _, [] => .gt
  | a :: as, b :: bs => if a < b then .lt else if b < a then .gt else compareBytes as bs

namespace Component

/-- The place of a kind of component among the kinds. -/
def rank : Component → Nat
  | root => 0
  | here => 1
  | up => 2
  | name _ => 3

def compare : Component → Component → Ordering
  | name a, name b => compareBytes a b
  | a, b => if a.rank < b.rank then .lt else if b.rank < a.rank then .gt else .eq

end Component

namespace Path

def compareComponents : List Component → List Component → Ordering
  | [], [] => .eq
  | [], _ :: _ => .lt
  | _ :: _, [] => .gt
  | a :: as, b :: bs =>
    match a.compare b with
    | .eq => compareComponents as bs
    | o => o

def compare (p q : Path) : Ordering := compareComponents p.components q.components

/-- Sorts paths; equal ones keep their order. -/
def sort (ps : List Path) : List Path := ps.mergeSort fun p q => (p.compare q).isLE

end Path
end GroovyWorkspace
