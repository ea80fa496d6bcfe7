import GroovyWorkspace.Yaml.Token

/-!
# YAML nodes

The tree of a document: scalars, sequences, mappings, and references to anchored nodes. Anchors are
numbered; a new number is the count of different names so far, so giving a name away again can make two
names share a number. A reference takes the number that its name has where it stands, and leads to
the node that came last with that number.
-/

namespace GroovyWorkspace.Yaml

/-- A node. A scalar is `plain` if it is neither quoted nor a block. -/
inductive Node where
  | scalar (text : List Char) (plain : Bool) (tag : Option (List Char))
  | sequence (items : List Node) (tag : Option (List Char))
  | mapping (pairs : List (Node × Node)) (tag : Option (List Char))
  | ref (number : Nat)
  deriving Inhabited

/-- The node where nothing is written. -/
def Node.blank : Node := .scalar [] true none

/-- A node with an anchor: its number, and how many anchors came before it. -/
structure Anchored where
  number : Nat
  turn : Nat
  node : Node
  deriving Inhabited

/-- Tokens still to be read, with what is known of anchors and tags. -/
structure Reading where
  tokens : List Token
  shorthands : List (List Char × List Char) := []
  numbers : List (List Char × Nat) := []
  turns : Nat := 0
  anchored : List Anchored := []
  deriving Inhabited

namespace Reading

/-- Behind the next token. -/
def skip (r : Reading) : Reading := { r with tokens := r.tokens.drop 1 }

/-- Whether the next token is one of some. -/
def isAt (r : Reading) (ts : List Token) : Bool := r.tokens.head?.any ts.contains

/-- Numbers an anchor. -/
def number (r : Reading) (name : List Char) : Reading :=
  let n := r.numbers.length
  { r with
    numbers := (name, n) :: r.numbers.filter fun e => e.1 ≠ name
    turns := r.turns + 1 }

/-- Keeps the node of an anchor that had the given number and turn. -/
def keep (r : Reading) (number turn : Nat) (node : Node) : Reading :=
  { r with anchored := ⟨number, turn, node⟩ :: r.anchored }

/-- The shorthands that every document has. -/
def defaultShorthands : List (List Char × List Char) :=
  [(['!'], ['!']), (['!', '!'], "tag:yaml.org,2002:".toList)]

/-- A tag in full. -/
def resolveTag (r : Reading) (handle suffix : List Char) : Option (List Char) :=
  if handle = [] then some suffix
  else ((r.shorthands ++ defaultShorthands).lookup handle).map (· ++ suffix)

/-- The anchor and the tag before a node, in any order. -/
def properties (r : Reading) : Option (Option (List Char) × Option (List Char) × Reading) :=
  match r.tokens with
  | .anchor name :: .tag handle suffix :: rest =>
    (r.resolveTag handle suffix).map fun t => (some name, some t, { r with tokens := rest })
  | .anchor name :: rest => some (some name, none, { r with tokens := rest })
  | .tag handle suffix :: .anchor name :: rest =>
    (r.resolveTag handle suffix).map fun t => (some name, some t, { r with tokens := rest })
  | .tag handle suffix :: rest =>
    (r.resolveTag handle suffix).map fun t => (none, some t, { r with tokens := rest })
  | _ => some (none, none, r)

end Reading

mutual

/-- Reads a node. Blocks may start only if `block` holds, and a sequence without an indentation of its
own only if `loose` holds. `fuel` bounds the number of tokens. -/
def node : Nat → Bool → Bool → Reading → Option (Node × Reading)
  | 0, _, _, _ => none
  | fuel + 1, block, loose, r =>
    match r.tokens with
    | .ref name :: rest =>
      (r.numbers.lookup name).map fun n => (.ref n, { r with tokens := rest })
    | _ => do
      let (anchor, tag, r) ← r.properties
      match anchor with
      | none => content fuel block loose tag false r
      | some name => do
        let number := r.numbers.length
        let turn := r.turns
        let (n, r) ← content fuel block loose tag true (r.number name)
        some (n, r.keep number turn n)

/-- Reads what stands behind the properties of a node. Nothing need stand there if there is a tag or
an anchor. -/
def content : Nat → Bool → Bool → Option (List Char) → Bool → Reading → Option (Node × Reading)
  | 0, _, _, _, _, _ => none
  | fuel + 1, block, loose, tag, anchored, r =>
    if loose ∧ r.isAt [.blockEntry] then do
      let (items, r) ← looseItems fuel r
      some (.sequence items tag, r)
    else
      match r.tokens with
      | .scalar text plain :: _ =>
        some (.scalar text plain (if tag = some ['!'] then none else tag), r.skip)
      | .flowSequenceStart :: _ => do
        let (items, r) ← flowItems fuel true r.skip
        some (.sequence items tag, r)
      | .flowMappingStart :: _ => do
        let (pairs, r) ← flowPairs fuel true r.skip
        some (.mapping pairs tag, r)
      | .blockSequenceStart :: _ =>
        if block then do
          let (items, r) ← blockItems fuel r.skip
          some (.sequence items tag, r)
        else if anchored ∨ tag.isSome then some (.scalar [] true tag, r)
        else none
      | .blockMappingStart :: _ =>
        if block then do
          let (pairs, r) ← blockPairs fuel r.skip
          some (.mapping pairs tag, r)
        else if anchored ∨ tag.isSome then some (.scalar [] true tag, r)
        else none
      | _ => if anchored ∨ tag.isSome then some (.scalar [] true tag, r) else none

/-- Reads a node, or nothing before one of some tokens. -/
def nodeUnless : Nat → List Token → Bool → Bool → Reading → Option (Node × Reading)
  | 0, _, _, _, _ => none
  | fuel + 1, stops, block, loose, r =>
    if r.isAt stops then some (Node.blank, r) else node fuel block loose r

def blockItems : Nat → Reading → Option (List Node × Reading)
  | 0, _ => none
  | fuel + 1, r =>
    match r.tokens with
    | .blockEntry :: _ => do
      let (n, r) ← nodeUnless fuel [.blockEntry, .blockEnd] true false r.skip
      let (ns, r) ← blockItems fuel r
      some (n :: ns, r)
    | .blockEnd :: _ => some ([], r.skip)
    | _ => none

/-- Reads the items of a sequence that has no indentation of its own. -/
def looseItems : Nat → Reading → Option (List Node × Reading)
  | 0, _ => none
  | fuel + 1, r =>
    match r.tokens with
    | .blockEntry :: _ => do
      let (n, r) ← nodeUnless fuel [.blockEntry, .key, .value, .blockEnd] true false r.skip
      let (ns, r) ← looseItems fuel r
      some (n :: ns, r)
    | _ => some ([], r)

/-- Reads the value behind a key, which may be missing. -/
def pairValue : Nat → List Token → Bool → Reading → Option (Node × Reading)
  | 0, _, _, _ => none
  | fuel + 1, stops, block, r =>
    if r.isAt [.value] then nodeUnless fuel stops block block r.skip else some (Node.blank, r)

def blockPairs : Nat → Reading → Option (List (Node × Node) × Reading)
  | 0, _ => none
  | fuel + 1, r =>
    match r.tokens with
    | .key :: _ => do
      let (k, r) ← nodeUnless fuel [.key, .value, .blockEnd] true true r.skip
      let (v, r) ← pairValue fuel [.key, .value, .blockEnd] true r
      let (ps, r) ← blockPairs fuel r
      some ((k, v) :: ps, r)
    | .blockEnd :: _ => some ([], r.skip)
    | _ => none

/-- Reads a mapping of one pair inside brackets, from behind the mark of its key. Where the key is
missing the token that shows it is passed over. -/
def flowPair : Nat → Reading → Option (Node × Reading)
  | 0, _ => none
  | fuel + 1, r => do
    let stops := [Token.value, .flowEntry, .flowSequenceEnd]
    let (k, r) ← if r.isAt stops then some (Node.blank, r.skip) else node fuel false false r
    let (v, r) ← pairValue fuel [.flowEntry, .flowSequenceEnd] false r
    some (.mapping [(k, v)] none, r)

/-- Reads the items of a sequence in brackets, from behind the opening bracket or behind an item. -/
def flowItems : Nat → Bool → Reading → Option (List Node × Reading)
  | 0, _, _ => none
  | fuel + 1, first, r =>
    if r.isAt [.flowSequenceEnd] then some ([], r.skip)
    else if ¬ first ∧ ¬ r.isAt [.flowEntry] then none
    else
      let r := if first then r else r.skip
      if r.isAt [.flowSequenceEnd] then some ([], r.skip)
      else do
        let (n, r) ←
          if r.isAt [.key] then flowPair fuel r.skip else node fuel false false r
        let (ns, r) ← flowItems fuel false r
        some (n :: ns, r)

/-- Reads the pairs of a mapping in braces, from behind the opening brace or behind a pair. -/
def flowPairs : Nat → Bool → Reading → Option (List (Node × Node) × Reading)
  | 0, _, _ => none
  | fuel + 1, first, r =>
    if r.isAt [.flowMappingEnd] then some ([], r.skip)
    else if ¬ first ∧ ¬ r.isAt [.flowEntry] then none
    else
      let r := if first then r else r.skip
      if r.isAt [.flowMappingEnd] then some ([], r.skip)
      else if r.isAt [.key] then do
        let (k, r) ← nodeUnless fuel [.value, .flowEntry, .flowMappingEnd] false false r.skip
        let (v, r) ← pairValue fuel [.flowEntry, .flowMappingEnd] false r
        let (ps, r) ← flowPairs fuel false r
        some ((k, v) :: ps, r)
      else do
        let (k, r) ← node fuel false false r
        let (ps, r) ← flowPairs fuel false r
        some ((k, Node.blank) :: ps, r)

end

namespace Reading

/-- The directives before a document. Only version 1.1 or 1.2 is known, and neither a version nor a
shorthand may be given twice. -/
def directives (versioned : Bool) (shorthands : List (List Char × List Char)) :
    List Token → Option (List (List Char × List Char) × List Token)
  | .version major minor :: rest =>
    if versioned ∨ major ≠ 1 ∨ ¬ (minor = 1 ∨ minor = 2) then none
    else directives true shorthands rest
  | .tagShorthand handle expansion :: rest =>
    if (shorthands.lookup handle).isSome then none
    else directives versioned ((handle, expansion) :: shorthands) rest
  | ts => some (shorthands, ts)

/-- Whether nothing but the ends of documents follows. -/
def isFinished : List Token → Bool
  | .documentEnd :: rest => isFinished rest
  | [.streamEnd] => true
  | _ => false

end Reading

/-- A document: its node and the anchored nodes in it. -/
structure Tree where
  root : Node
  anchored : List Anchored
  deriving Inhabited

/-- Reads the content of a document and checks that nothing follows. -/
def Tree.ofContent? (r : Reading) : Option Tree := do
  let (root, r) ← node (8 * r.tokens.length + 8) true false r
  if Reading.isFinished r.tokens then some ⟨root, r.anchored⟩ else none

/-- Reads the tokens of a text with at most one document. -/
def Tree.ofTokens? (ts : List Token) : Option Tree :=
  match ts with
  | [.streamEnd] => some ⟨Node.blank, []⟩
  | .version .. :: _ | .tagShorthand .. :: _ | .documentStart :: _ => do
    let (shorthands, rest) ← Reading.directives false [] ts
    match rest with
    | .documentStart :: rest =>
      if Reading.isFinished rest then some ⟨Node.blank, []⟩
      else Tree.ofContent? { tokens := rest, shorthands }
    | _ => none
  | _ => Tree.ofContent? { tokens := ts }

end GroovyWorkspace.Yaml
