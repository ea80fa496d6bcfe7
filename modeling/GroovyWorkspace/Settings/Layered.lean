import GroovyWorkspace.Settings.Basic

/-!
# Layers of settings

Documents from several places, ordered by scope: defaults, the user's settings, the workspace's, and
overrides. A later layer hides an earlier one key by key.
-/

namespace GroovyWorkspace

/-- Where a settings document comes from. -/
inductive Scope where
  | default
  | user
  | workspace
  | override
  deriving DecidableEq, Repr, Inhabited

namespace Scope

/-- The place of a scope in the order of precedence. -/
def rank : Scope → Nat
  | default => 0
  | user => 1
  | workspace => 2
  | override => 3

def name : Scope → String
  | default => "default"
  | user => "user"
  | workspace => "workspace"
  | override => "override"

def ofName? (s : String) : Option Scope :=
  [default, user, workspace, override].find? fun scope => scope.name = s

/-- The order of scopes. -/
def compare (a b : Scope) : Ordering := Ord.compare a.rank b.rank

end Scope

/-- Settings documents in the order of their scopes; those of one scope in the order in which they
were added. -/
structure LayeredSettings where
  layers : List (Scope × Settings) := []
  deriving Repr, Inhabited

namespace LayeredSettings

def empty : LayeredSettings := {}

/-- Where the elements with a property end, in a list that has them all in front. The end lies between
`lo` and `hi`, and each look at the middle halves the distance. -/
def partitionBetween {α : Type} (p : α → Bool) (l : List α) (lo hi : Nat) : Nat :=
  if lo < hi then
    let mid := (lo + hi) / 2
    if l[mid]?.any p then partitionBetween p l (mid + 1) hi else partitionBetween p l lo mid
  else lo
termination_by hi - lo

/-- The number of elements with a property, in a list that has them all in front. -/
def partitionPoint {α : Type} (p : α → Bool) (l : List α) : Nat := partitionBetween p l 0 l.length

/-- Adds a layer, behind those whose scope is not greater. -/
def push (l : LayeredSettings) (scope : Scope) (s : Settings) : LayeredSettings :=
  ⟨l.layers.insertIdx (partitionPoint (fun layer => layer.1.rank ≤ scope.rank) l.layers) (scope, s)⟩

def isEmpty (l : LayeredSettings) : Bool := l.layers.isEmpty

/-- The value of a dotted key: that of the last layer that has one. -/
def get? (l : LayeredSettings) (key : String) : Option Value :=
  l.layers.reverse.findSome? fun layer => layer.2.get? key

/-- The scope of the last layer that has a value for a key. -/
def scopeOf? (l : LayeredSettings) (key : String) : Option Scope :=
  (l.layers.reverse.find? fun layer => (layer.2.get? key).isSome).map Prod.fst

def toStore (l : LayeredSettings) : Store := ⟨l.get?⟩

end LayeredSettings
end GroovyWorkspace
