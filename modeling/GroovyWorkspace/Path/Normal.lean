import GroovyWorkspace.Path.Basic

/-!
# Normal forms of paths

`normalize` works out the steps `.` and `..` of a path on its spelling alone. The result is the root
followed by names, or some number of `..` followed by names.
-/

namespace GroovyWorkspace.Path

/-- Takes one more step from a place whose steps are kept backwards. At the root `..` stays, and
where there is no name to leave it is kept. -/
def settle (back : List Component) : Component → List Component
  | .here => back
  | .root => [.root]
  | .up =>
    match back with
    | .name _ :: rest => rest
    | .root :: rest => .root :: rest
    | _ => .up :: back
  | .name n => .name n :: back

def normalComponents (cs : List Component) : List Component :=
  (cs.foldl settle []).reverse

def componentBytes : Component → List UInt8
  | .root => []
  | .here => [dot]
  | .up => [dot, dot]
  | .name n => n

/-- The plainest spelling of a list of components. -/
def ofComponents : List Component → Path
  | [.root] => ⟨[slash]⟩
  | cs => ⟨unparts (cs.map componentBytes)⟩

def normalize (p : Path) : Path := ofComponents (normalComponents p.components)

end GroovyWorkspace.Path
