import GroovyWorkspace.Path.Basic

/-!
# File systems

A file system is a tree of files, folders and symbolic links together with a current folder. A file can
be locked: it can be seen then but not read. What a folder allows is said by its `Access`: to be opened
and read is one thing, to be passed through on the way to what is in it is another.
-/

namespace GroovyWorkspace

/-- The name of an entry of a folder. -/
abbrev Name := List UInt8

/-- Why an operation on a file system fails. -/
inductive OsError where
  | notFound
  | denied
  | alreadyThere
  | notADirectory
  | isADirectory
  | invalidArgument
  | nameTooLong
  | tooManyLinks
  | invalidText
  | nulByte
  deriving DecidableEq, Repr

def OsError.message : OsError → String
  | notFound => "No such file or directory (os error 2)"
  | denied => "Permission denied (os error 13)"
  | alreadyThere => "File exists (os error 17)"
  | notADirectory => "Not a directory (os error 20)"
  | isADirectory => "Is a directory (os error 21)"
  | invalidArgument => "Invalid argument (os error 22)"
  | nameTooLong => "File name too long (os error 36)"
  | tooManyLinks => "Too many levels of symbolic links (os error 40)"
  | invalidText => "stream did not contain valid UTF-8"
  | nulByte => "file name contained an unexpected NUL byte"

/-- What a folder allows. It may be opened for reading its entries, and it may be passed through to an
entry whose name is known, either without the other. Reading an open folder gives its entries one by one,
and may break off behind them instead of coming to an end. -/
structure Access where
  readable : Bool := true
  passable : Bool := true
  fault : Option OsError := none
  deriving DecidableEq, Repr, Inhabited

/-- A folder that allows nothing but to be seen. -/
def Access.locked : Access := { readable := false, passable := false }

/-- Something in a file system. -/
inductive Node where
  | file (contents : ByteArray) (locked : Bool := false)
  | folder (entries : List (Name × Node)) (access : Access := {})
  | link (target : Path)
  deriving Inhabited

/-- What kind of thing stands at a path. -/
inductive Kind where
  | file
  | folder
  | link
  deriving DecidableEq, Repr

def Node.kind : Node → Kind
  | file .. => .file
  | folder .. => .folder
  | link .. => .link

/-- A place in a file system: the names that lead to it from the root. -/
abbrev Place := List Name

/-- A file system: the entries of its root folder, and the place from which relative paths start. -/
structure FileSystem where
  root : List (Name × Node) := []
  current : Place := []
  deriving Inhabited

namespace Node

/-- The entry of a folder with a given name. -/
def named? (entries : List (Name × Node)) (name : Name) : Option Node :=
  entries.lookup name

/-- The node that a list of names leads to, links not being followed. -/
def descend : Node → Place → Option Node
  | node, [] => some node
  | folder entries _, name :: rest =>
    match named? entries name with
    | some node => node.descend rest
    | none => none
  | _, _ :: _ => none

/-- Replaces the entry with a given name, removes it, or adds it at the end. -/
def setEntry (name : Name) (new : Option Node) : List (Name × Node) → List (Name × Node)
  | [] => new.toList.map fun node => (name, node)
  | (n, node) :: rest =>
    if n = name then (new.toList.map fun node => (name, node)) ++ rest
    else (n, node) :: setEntry name new rest

/-- Changes what stands at a place below a list of entries. Places inside something that is no folder
stay as they are. -/
def alterEntries (change : Option Node → Option Node) :
    Place → List (Name × Node) → List (Name × Node)
  | [], entries => entries
  | [name], entries => setEntry name (change (named? entries name)) entries
  | name :: rest, entries =>
    match named? entries name with
    | some (folder inner access) =>
      setEntry name (some (folder (alterEntries change rest inner) access)) entries
    | _ => entries

end Node

namespace FileSystem

def node? (fs : FileSystem) (place : Place) : Option Node :=
  (Node.folder fs.root).descend place

/-- Changes what stands at a place other than the root. -/
def alter (fs : FileSystem) (place : Place) (change : Option Node → Option Node) : FileSystem :=
  { fs with root := Node.alterEntries change place fs.root }

def pathOf (place : Place) : Path :=
  if place = [] then ⟨[slash]⟩ else ⟨place.flatMap fun name => slash :: name⟩

end FileSystem
end GroovyWorkspace
