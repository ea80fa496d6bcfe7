import GroovyWorkspace.Yaml.Node
import GroovyWorkspace.Yaml.Scalar

/-!
# YAML documents

The value of a document. The keys of a mapping are the texts of scalars, and of several values for one
key the last counts. References are followed, as often as a hundred times the size of the document in
all; sequences and mappings may be nested 128 deep.
-/

namespace GroovyWorkspace.Yaml

namespace Node

mutual

/-- The number of starts and ends of a node and the nodes in it; scalars and references have one. -/
def size : Node → Nat
  | .scalar .. => 1
  | .ref _ => 1
  | .sequence items _ => 2 + itemsSize items
  | .mapping pairs _ => 2 + pairsSize pairs

def itemsSize : List Node → Nat
  | [] => 0
  | n :: ns => n.size + itemsSize ns

def pairsSize : List (Node × Node) → Nat
  | [] => 0
  | (k, v) :: ps => k.size + v.size + pairsSize ps

end

end Node

/-- The node that came last with a number. -/
def Anchored.latest? (number : Nat) (anchored : List Anchored) : Option Node :=
  (anchored.foldl (fun best a =>
    if a.number ≠ number then best
    else
      match best with
      | some b => if b.turn < a.turn then some a else best
      | none => some a) (none : Option Anchored)).map (·.node)

namespace Tree

/-- The number of references that may be followed. -/
def jumpLimit (t : Tree) : Nat := 100 * t.root.size

/-- The node behind a reference, with the count of references followed. -/
def follow (t : Tree) (jumps : Nat) : Node → Option (Node × Nat)
  | .ref number =>
    if t.jumpLimit < jumps + 1 then none
    else (Anchored.latest? number t.anchored).map (·, jumps + 1)
  | n => some (n, jumps)

def keyText (t : Tree) (jumps : Nat) (n : Node) : Option (String × Nat) := do
  match ← t.follow jumps n with
  | (.scalar text _ _, jumps) => some (String.ofList text, jumps)
  | _ => none

def itemValues (value : Nat → Node → Option (Value × Nat)) :
    Nat → List Node → Option (List Value × Nat)
  | jumps, [] => some ([], jumps)
  | jumps, n :: ns => do
    let (v, jumps) ← value jumps n
    let (vs, jumps) ← itemValues value jumps ns
    some (v :: vs, jumps)

def pairValues (t : Tree) (value : Nat → Node → Option (Value × Nat)) :
    Nat → List (Node × Node) → Option (List (String × Value) × Nat)
  | jumps, [] => some ([], jumps)
  | jumps, (k, v) :: ps => do
    let (key, jumps) ← t.keyText jumps k
    let (v, jumps) ← value jumps v
    let (es, jumps) ← pairValues t value jumps ps
    some ((key, v) :: es, jumps)

/-- Whether a tag is a local one, which no collection can have. -/
def isLocalTag (tag : Option (List Char)) : Bool := tag.any fun t => t.head? = some '!'

/-- The value of a node in which at most `depth` collections are nested. -/
def valueWithin (t : Tree) : Nat → Nat → Node → Option (Value × Nat)
  | depth, jumps, n => do
    let (n, jumps) ← t.follow jumps n
    match n with
    | .scalar text plain tag => (scalarValue? text plain tag).map (·, jumps)
    | .sequence items tag =>
      match depth with
      | 0 => none
      | depth + 1 =>
        if isLocalTag tag then none
        else do
          let (vs, jumps) ← itemValues (valueWithin t depth) jumps items
          some (.array vs, jumps)
    | .mapping pairs tag =>
      match depth with
      | 0 => none
      | depth + 1 =>
        if isLocalTag tag then none
        else do
          let (es, jumps) ← t.pairValues (valueWithin t depth) jumps pairs
          some (.object (Entries.ofList es), jumps)
    | .ref _ => none

def depthLimit : Nat := 128

def toValue? (t : Tree) : Option Value := (t.valueWithin depthLimit 0 t.root).map Prod.fst

end Tree

def parse? (text : String) : Option Value := do
  let ts ← tokens? text.toList
  let tree ← Tree.ofTokens? ts
  tree.toValue?

end GroovyWorkspace.Yaml
