import GroovyWorkspace.FileSystem.Basic

/-!
# Finding things in a file system

A path is followed step by step. Before a step the place must be a folder that may be passed
through; a name that is a link is replaced by the steps of its target. At most forty links are
followed for one path.
-/

namespace GroovyWorkspace

/-- A step on the way to a place. `folder` stands for a slash at the end: what has been reached must
be a folder, but it need not be passed through. -/
inductive Step where
  | name (bytes : Name)
  | here
  | up
  | folder
  deriving DecidableEq, Repr

/-- Where a path leads: to a node, or to a name that a folder does not have. -/
inductive Target where
  | found (place : Place) (node : Node)
  | absent (parent : Place) (name : Name) (slash : Bool)
  deriving Inhabited

/-- What reading an open folder gives: its entries, and why it breaks off behind them if it does. -/
structure Listing where
  entries : List (Name × Node)
  fault : Option OsError := none

/-- The entries, if reading comes to an end. -/
def Listing.all (l : Listing) : Except OsError (List (Name × Node)) :=
  match l.fault with
  | some e => .error e
  | none => .ok l.entries

/-- Opens a folder for reading its entries. -/
def Node.listing : Node → Except OsError Listing
  | folder entries access => if access.readable then .ok ⟨entries, access.fault⟩ else .error .denied
  | _ => .error .notADirectory

/-- The longest name of an entry, in bytes. -/
def maxName : Nat := 255

def maxPath : Nat := 4095

/-- The number of links that are followed for one path. -/
def maxLinks : Nat := 40

namespace Path

/-- The steps that a part stands for. -/
def partStep? (part : List UInt8) : Option Step :=
  if part = [] then none
  else if part = [dot] then some .here
  else if part = [dot, dot] then some .up
  else some (.name part)

/-- The steps of a path, from the root or from the current folder. -/
def steps (p : Path) : List Step :=
  (parts p.bytes).filterMap partStep? ++
    if p.bytes.getLast? = some slash then [Step.folder] else []

end Path

namespace FileSystem

/-- The folder at a place, if it may be passed through. -/
def enter (fs : FileSystem) (place : Place) : Except OsError (List (Name × Node)) :=
  match fs.node? place with
  | some (.folder entries access) => if access.passable then .ok entries else .error .denied
  | some _ => .error .notADirectory
  | none => .error .notFound

/-- Takes steps from a place. `follow` goes on from a place with the steps of a link's target in
front; the last step is a link to be followed only if `last` holds. -/
def stepsFrom (fs : FileSystem) (follow : Place → List Step → Except OsError Target) (last : Bool) :
    Place → List Step → Except OsError Target
  | place, [] =>
    match fs.node? place with
    | some node => .ok (.found place node)
    | none => .error .notFound
  | place, .folder :: rest =>
    match fs.node? place with
    | some (.folder ..) => stepsFrom fs follow last place rest
    | some _ => .error .notADirectory
    | none => .error .notFound
  | place, .here :: rest => do
    let _ ← fs.enter place
    stepsFrom fs follow last place rest
  | place, .up :: rest => do
    let _ ← fs.enter place
    stepsFrom fs follow last place.dropLast rest
  | place, .name n :: rest => do
    let entries ← fs.enter place
    if maxName < n.length then .error .nameTooLong
    else
      match Node.named? entries n with
      | none =>
        if rest = [] then .ok (.absent place n false)
        else if rest = [.folder] then .ok (.absent place n true)
        else .error .notFound
      | some (.link target) =>
        if rest = [] ∧ ¬ last then .ok (.found (place ++ [n]) (.link target))
        else if target.bytes = [] then .error .notFound
        else follow (if target.isAbsolute then [] else place) (target.steps ++ rest)
      | some _ => stepsFrom fs follow last (place ++ [n]) rest

/-- Takes steps from a place, following at most `links` links. -/
def walkFrom (fs : FileSystem) (last : Bool) : Nat → Place → List Step → Except OsError Target
  | 0 => stepsFrom fs (fun _ _ => .error .tooManyLinks) last
  | links + 1 => stepsFrom fs (walkFrom fs last links) last

/-- Where a path leads. A link at its end is followed only if `last` holds. -/
def locate (fs : FileSystem) (p : Path) (last : Bool) : Except OsError Target :=
  if p.bytes.contains 0 then .error .nulByte
  else if p.bytes = [] then .error .notFound
  else if maxPath < p.bytes.length then .error .nameTooLong
  else walkFrom fs last maxLinks (if p.isAbsolute then [] else fs.current) p.steps

/-- The place and node that a path leads to. -/
def find (fs : FileSystem) (p : Path) (last : Bool := true) : Except OsError (Place × Node) := do
  match ← fs.locate p last with
  | .found place node => .ok (place, node)
  | .absent .. => .error .notFound

/-- The kind of thing at a path, links being followed. -/
def kind (fs : FileSystem) (p : Path) : Except OsError Kind := do
  let (_, node) ← fs.find p
  .ok node.kind

/-- Whether something is at a path, links being followed. -/
def isPresent (fs : FileSystem) (p : Path) : Bool := (fs.kind p).isOk

/-- Whether a file is at a path, links being followed. -/
def isFile (fs : FileSystem) (p : Path) : Bool :=
  match fs.kind p with
  | .ok .file => true
  | _ => false

/-- Whether a folder is at a path, links being followed. -/
def isFolder (fs : FileSystem) (p : Path) : Bool :=
  match fs.kind p with
  | .ok .folder => true
  | _ => false

def openFolder (fs : FileSystem) (p : Path) : Except OsError Listing := do
  let (_, node) ← fs.find p
  node.listing

/-- The entries of the folder at a path: it is opened, and read to the end. -/
def list (fs : FileSystem) (p : Path) : Except OsError (List (Name × Node)) := do
  let listing ← fs.openFolder p
  listing.all

/-- The path of the current folder. There is none if the folder has been removed. -/
def currentFolder (fs : FileSystem) : Except OsError Path :=
  match fs.node? fs.current with
  | some (.folder ..) => .ok (pathOf fs.current)
  | _ => .error .notFound

def read (fs : FileSystem) (p : Path) : Except OsError ByteArray := do
  match ← fs.find p with
  | (_, .file contents locked) => if locked then .error .denied else .ok contents
  | (_, .folder _ access) => if access.readable then .error .isADirectory else .error .denied
  | (_, .link _) => .error .tooManyLinks

def readText (fs : FileSystem) (p : Path) : Except OsError String := do
  match String.fromUTF8? (← fs.read p) with
  | some s => .ok s
  | none => .error .invalidText

end FileSystem
end GroovyWorkspace
