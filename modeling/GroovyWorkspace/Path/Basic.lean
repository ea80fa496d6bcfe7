import GroovyWorkspace.Text.Utf8

/-!
# Paths

A path is the bytes it is spelled with; they need not be text. What a path says is its list of
components, and two spellings with the same components mean the same path: `a//b/.` and `a/b` do,
`./a` and `a` do not.
-/

namespace GroovyWorkspace

/-- A path, spelled as given. -/
structure Path where
  bytes : List UInt8
  deriving DecidableEq, Repr, Inhabited

/-- The byte that divides the parts of a path. -/
def slash : UInt8 := 47

/-- The byte of a full stop. -/
def dot : UInt8 := 46

/-- A step of a path. -/
inductive Component where
  | root
  | here
  | up
  | name (bytes : List UInt8)
  deriving DecidableEq, Repr

namespace Path

def ofString (s : String) : Path := ⟨Text.encode s⟩

/-- The path as text, with replacement characters for what is not text. -/
def display (p : Path) : String := Text.decodeLossy p.bytes

/-- The path as text, if it is text. -/
def text? (p : Path) : Option String := Text.decode? p.bytes

/-- The parts between the slashes, empty ones included. -/
def parts : List UInt8 → List (List UInt8)
  | [] => [[]]
  | b :: rest =>
    if b = slash then [] :: parts rest
    else
      match parts rest with
      | p :: ps => (b :: p) :: ps
      | [] => [[b]]

/-- Parts put together again with slashes between them. -/
def unparts : List (List UInt8) → List UInt8
  | [] => []
  | [p] => p
  | p :: ps => p ++ slash :: unparts ps

def isAbsolute (p : Path) : Bool := p.bytes.head? = some slash

/-- The step that a part stands for; empty parts and full stops stand for none. -/
def step? (part : List UInt8) : Option Component :=
  if part = [] ∨ part = [dot] then none
  else if part = [dot, dot] then some .up
  else some (.name part)

/-- The component that only the start of a path can have: the root, or a leading full stop. -/
def lead (p : Path) : List Component :=
  if p.isAbsolute then [.root]
  else if (parts p.bytes).head? = some [dot] then [.here]
  else []

def components (p : Path) : List Component :=
  p.lead ++ (parts p.bytes).filterMap step?

/-- Whether two spellings mean the same path. -/
def same (p q : Path) : Bool := p.components = q.components

/-- The path `q` as seen from `p`. -/
def join (p q : Path) : Path :=
  if q.isAbsolute then q
  else if p.bytes = [] ∨ p.bytes.getLast? = some slash then ⟨p.bytes ++ q.bytes⟩
  else ⟨p.bytes ++ slash :: q.bytes⟩

/-- A name inside the folder `p`. -/
def child (p : Path) (name : List UInt8) : Path := p.join ⟨name⟩

/-- Whether a part says nothing where it stands behind another one. -/
def isIdle (part : List UInt8) : Bool := part = [] || part = [dot]

/-- Parts without the idle ones at the end; the first part stays. -/
def trimParts : List (List UInt8) → List (List UInt8)
  | [] => []
  | p :: ps => p :: (ps.reverse.dropWhile isIdle).reverse

/-- The folder that the last component stands in; the root and the empty path have none. -/
def parent? (p : Path) : Option Path :=
  match (trimParts (parts p.bytes)).reverse with
  | [] => none
  | [[]] => none
  | [_] => some ⟨[]⟩
  | _ :: before =>
    match trimParts before.reverse with
    | [[]] => some ⟨[slash]⟩
    | ps => some ⟨unparts ps⟩

/-- The last component, if it is a name. -/
def fileName? (p : Path) : Option (List UInt8) :=
  match p.components.getLast? with
  | some (.name n) => some n
  | _ => none

/-- What stands before and behind the last full stop of a name. -/
def splitDot (name : List UInt8) : Option (List UInt8 × List UInt8) :=
  let back := name.reverse
  match back.dropWhile (· ≠ dot) with
  | [] => none
  | _ :: before => some (before.reverse, (back.takeWhile (· ≠ dot)).reverse)

/-- The extension of the last component: what stands behind its last full stop, unless nothing
stands before it. -/
def extension? (p : Path) : Option (List UInt8) :=
  match p.fileName? with
  | none => none
  | some name =>
    match splitDot name with
    | some (before, after) => if before = [] then none else some after
    | none => none

/-- Whether the components of `q` begin those of `p`. -/
def startsWith (p q : Path) : Bool := q.components.isPrefixOf p.components

/-- Drops components from the front of a list of parts, with the idle parts behind them. -/
def dropSteps : Nat → List (List UInt8) → List (List UInt8)
  | _, [] => []
  | n, p :: ps =>
    if isIdle p then dropSteps n ps
    else
      match n with
      | 0 => p :: ps
      | n + 1 => dropSteps n ps

/-- The path below `q`, if `q` begins `p`. The spelling of what is left stays, up to idle parts at
its ends. -/
def below? (p q : Path) : Option Path :=
  if ¬ p.startsWith q then none
  else if q.components = [] then some ⟨unparts (trimParts (parts p.bytes))⟩
  else
    let rest := dropSteps (q.components.length - p.lead.length) (parts p.bytes)
    some ⟨unparts (trimParts rest)⟩

end Path
end GroovyWorkspace
