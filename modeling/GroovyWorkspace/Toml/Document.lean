import GroovyWorkspace.Text.Utf8
import GroovyWorkspace.Toml.Datetime
import GroovyWorkspace.Toml.Numeral
import GroovyWorkspace.Toml.Table

/-!
# TOML documents

A document is a sequence of lines: comments, headers that open a table, and keys with values. Dates and
times become objects with one entry that holds their text; numbers that are infinite or none become
null.
-/

namespace GroovyWorkspace.Toml

/-- The number of lists and inline tables that may be nested, and the number of parts that a dotted key
must stay below. -/
def depthLimit : Nat := 80

/-- Whether a character may stand in a bare key. -/
def isBareKey (c : Char) : Bool :=
  ('a' ≤ c && c ≤ 'z') || ('A' ≤ c && c ≤ 'Z') || ('0' ≤ c && c ≤ '9') || c = '_' || c = '-'

/-- One part of a dotted key. -/
def simpleKey : Reader String
  | '"' :: rest => (basicString rest).map fun r => (String.ofList r.1, r.2)
  | '\'' :: rest => (literalString rest).map fun r => (String.ofList r.1, r.2)
  | cs =>
    let word := cs.takeWhile isBareKey
    if word = [] then none else some (String.ofList word, cs.dropWhile isBareKey)

/-- The parts of a dotted key. `fuel` bounds their number. -/
def keyUpTo : Nat → Reader (List String)
  | 0, _ => none
  | fuel + 1, cs => do
    let (part, rest) ← simpleKey (skipSpace cs)
    match skipSpace rest with
    | '.' :: rest => do
      let (parts, rest) ← keyUpTo fuel rest
      some (part :: parts, rest)
    | rest => some ([part], rest)

def key : Reader (List String × String) := fun cs => do
  let (parts, rest) ← keyUpTo (depthLimit - 1) cs
  let last ← parts.getLast?
  some ((parts.dropLast, last), rest)

/-- A date or time as a settings value. -/
def datetimeValue (text : String) : Value :=
  .object [("$__toml_private_datetime", .string text)]

/-- A number, a date or a time. -/
def numberValue : Reader Value := fun cs =>
  match datetime cs with
  | some (text, rest) => some (datetimeValue text, rest)
  | none =>
    match float cs with
    | some (x, rest) => some (.ofBinary64 x, rest)
    | none =>
      match special cs with
      | some (x, rest) => some (.ofBinary64 x, rest)
      | none => (integer cs).map fun r => (.int r.1, r.2)

/-- The elements of a list from where one may start. `fuel` bounds their number. -/
def elements (element : Reader Value) : Nat → Reader (List Value)
  | 0, _ => none
  | fuel + 1, cs =>
    match skipLines cs with
    | ']' :: rest => some ([], rest)
    | start => do
      let (v, rest) ← element start
      match skipLines rest with
      | ',' :: rest => do
        let (vs, rest) ← elements element fuel rest
        some (v :: vs, rest)
      | ']' :: rest => some ([v], rest)
      | _ => none

def keyValue (element : Reader Value) : Reader ((List String × String) × Value) := fun cs => do
  let (k, rest) ← key cs
  let rest ← expect '=' rest
  let (v, rest) ← element (skipSpace rest)
  some ((k, v), rest)

/-- The entries of an inline table from where one must start. `fuel` bounds their number. -/
def inlineEntries (element : Reader Value) : Nat → Table → Reader Table
  | 0, _, _ => none
  | fuel + 1, t, cs => do
    let (((path, k), v), rest) ← keyValue element cs
    let t ← t.assign path k v
    match skipSpace rest with
    | ',' :: rest => inlineEntries element fuel t rest
    | '}' :: rest => some (t, rest)
    | _ => none

/-- An inline table from behind its opening brace. -/
def inlineTable (element : Reader Value) : Reader Value := fun cs =>
  match skipSpace cs with
  | '}' :: rest => some (.object [], rest)
  | start => do
    let (t, rest) ← inlineEntries element (start.length + 1) [] start
    some ((Item.table false false t).toValue, rest)

/-- Reads a value, with at most `depth` lists and inline tables nested in it. -/
def value : Nat → Reader Value
  | depth, cs =>
    match cs with
    | [] => none
    | c :: rest =>
      if c = '"' ∨ c = '\'' then (string cs).map fun r => (.string r.1, r.2)
      else if c = '[' then
        match depth with
        | 0 => none
        | depth + 1 => (elements (value depth) (rest.length + 1) rest).map fun r => (.array r.1, r.2)
      else if c = '{' then
        match depth with
        | 0 => none
        | depth + 1 => inlineTable (value depth) rest
      else
        match cs with
        | 't' :: 'r' :: 'u' :: 'e' :: rest => some (.bool true, rest)
        | 'f' :: 'a' :: 'l' :: 's' :: 'e' :: rest => some (.bool false, rest)
        | _ => numberValue cs

/-- A document that is being read: its tree, and the keys of the table that entries go into. -/
structure Draft where
  root : Table := []
  header : List String := []

namespace Draft

/-- Gives a key a value in the open table. -/
def assign (d : Draft) (path : List String) (k : String) (v : Value) : Option Draft :=
  (Table.alter false (fun _ t => t.assign path k v) d.header false d.root).map fun root =>
    { d with root }

def openTable (d : Draft) (path : List String) (k : String) : Option Draft :=
  (d.root.openTable path k).map fun root => { root, header := path ++ [k] }

/-- Opens a new element of a list of tables. -/
def openElement (d : Draft) (path : List String) (k : String) : Option Draft :=
  (d.root.openElement path k).map fun root => { root, header := path ++ [k] }

end Draft

/-- Reads one line from its first character that is not blank. -/
def line (d : Draft) : Reader Draft
  | '#' :: rest => (lineEnd? ('#' :: rest)).map (d, ·)
  | '[' :: '[' :: rest => do
    let ((path, k), rest) ← key rest
    let rest ← expect ']' rest
    let rest ← expect ']' rest
    let rest ← lineEnd? rest
    (d.openElement path k).map (·, rest)
  | '[' :: rest => do
    let ((path, k), rest) ← key rest
    let rest ← expect ']' rest
    let rest ← lineEnd? rest
    (d.openTable path k).map (·, rest)
  | '\n' :: rest => some (d, rest)
  | '\r' :: '\n' :: rest => some (d, rest)
  | cs => do
    let (((path, k), v), rest) ← keyValue (value (depthLimit - 1)) cs
    let rest ← lineEnd? rest
    (d.assign path k v).map (·, rest)

/-- Reads lines to the end of the text. `fuel` bounds their number. -/
def lines : Nat → Draft → List Char → Option Draft
  | 0, _, _ => none
  | fuel + 1, d, cs =>
    match skipSpace cs with
    | [] => some d
    | start => do
      let (d, rest) ← line d start
      lines fuel d rest

def parse? (text : String) : Option Value :=
  let cs := Text.dropMark text.toList
  (lines (cs.length + 1) {} cs).map fun d => (Item.table false false d.root).toValue

end GroovyWorkspace.Toml
