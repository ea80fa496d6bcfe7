import GroovyWorkspace.Value

/-!
# Tables in TOML

The tree that a document builds up line by line. A table can be opened by a header only once, unless it
has come up only on the way to others; dotted keys can add to a table only if dotted keys have made
it. A list of tables is added to at its last element.
-/

namespace GroovyWorkspace.Toml

/-- Something with a key. A table is `implicit` until a header opens it, and `dotted` if a dotted key
has made it. -/
inductive Item where
  | value (v : Value)
  | table (implicit dotted : Bool) (entries : List (String × Item))
  | tables (elements : List (List (String × Item)))
  deriving Inhabited

abbrev Table := List (String × Item)

namespace Table

/-- Gives a key an item in place of any other. -/
def set (key : String) (item : Item) : Table → Table
  | [] => [(key, item)]
  | (k, i) :: rest => if k = key then (key, item) :: rest else (k, i) :: set key item rest

/-- Changes the table that some keys lead to, making tables on the way. `change` is told whether
dotted keys have made the table. Keys that are written dotted must not pass through a table that a
header has opened. -/
def alter (writtenDotted : Bool) (change : Bool → Table → Option Table) :
    List String → Bool → Table → Option Table
  | [], dotted, t => change dotted t
  | key :: keys, _, t =>
    match t.lookup key with
    | none =>
      (alter writtenDotted change keys writtenDotted []).map fun inner =>
        set key (.table true writtenDotted inner) t
    | some (.value _) => none
    | some (.tables elements) =>
      match elements.getLast? with
      | none => none
      | some last =>
        (alter writtenDotted change keys false last).map fun inner =>
          set key (.tables (elements.dropLast ++ [inner])) t
    | some (.table implicit dotted inner) =>
      if writtenDotted ∧ ¬ implicit then none
      else
        (alter writtenDotted change keys dotted inner).map fun inner =>
          set key (.table implicit dotted inner) t

/-- Gives the key at the end of a dotted key a value. It must have none, and the table it goes into must
have been made by dotted keys exactly if the key is dotted. -/
def assign (path : List String) (key : String) (v : Value) (t : Table) : Option Table :=
  alter true (fun dotted t =>
    if dotted = path.isEmpty then none
    else if (t.lookup key).isSome then none
    else some (set key (.value v) t)) path false t

/-- Opens the table `key` below `path` by a header. -/
def openTable (path : List String) (key : String) (t : Table) : Option Table :=
  alter false (fun _ t =>
    match t.lookup key with
    | none => some (set key (.table false false []) t)
    | some (.table true false inner) => some (set key (.table false false inner) t)
    | some _ => none) path false t

/-- Opens a new element of the list of tables `key` below `path` by a header. -/
def openElement (path : List String) (key : String) (t : Table) : Option Table :=
  alter false (fun _ t =>
    match t.lookup key with
    | none => some (set key (.tables [[]]) t)
    | some (.tables elements) => some (set key (.tables (elements ++ [[]])) t)
    | some _ => none) path false t

end Table

namespace Item

mutual

def toValue : Item → Value
  | .value v => v
  | .table _ _ entries => .object (entryValues entries)
  | .tables elements => .array (elementValues elements)

/-- The entries of a table as those of an object. -/
def entryValues : List (String × Item) → Entries
  | [] => []
  | (key, item) :: rest => Entries.insert key item.toValue (entryValues rest)

/-- The elements of a list of tables as objects. -/
def elementValues : List (List (String × Item)) → List Value
  | [] => []
  | entries :: rest => .object (entryValues entries) :: elementValues rest

end

end Item
end GroovyWorkspace.Toml
