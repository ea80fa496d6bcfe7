/-!
# Writing JSON

Documents to be written as JSON, in two layouts: compact, and indented by two blanks a level. The
fields of a record are written in the order given.
-/

namespace GroovyWorkspace.Json

/-- A document to be written. -/
inductive Document where
  | null
  | flag (b : Bool)
  | text (s : String)
  | list (items : List Document)
  | record (fields : List (String × Document))
  deriving Repr, Inhabited

/-- The digit of a number below sixteen, in lower case. -/
def lowerHexDigit (n : Nat) : Char :=
  if n < 10 then Char.ofNat (48 + n) else Char.ofNat (87 + n)

/-- A character as it stands inside a string literal. Only the quote, the backslash and the control
characters below the blank are escaped. -/
def escaped (c : Char) : List Char :=
  if c = '"' then ['\\', '"']
  else if c = '\\' then ['\\', '\\']
  else if c = '\x08' then ['\\', 'b']
  else if c = '\x0c' then ['\\', 'f']
  else if c = '\n' then ['\\', 'n']
  else if c = '\r' then ['\\', 'r']
  else if c = '\t' then ['\\', 't']
  else if c.toNat < 0x20 then
    ['\\', 'u', '0', '0', lowerHexDigit (c.toNat / 16), lowerHexDigit (c.toNat % 16)]
  else [c]

def quote (s : String) : List Char :=
  '"' :: s.toList.flatMap escaped ++ ['"']

def flagText (b : Bool) : List Char :=
  if b then "true".toList else "false".toList

mutual

/-- A document without any white space. -/
def compact : Document → List Char
  | .null => "null".toList
  | .flag b => flagText b
  | .text s => quote s
  | .list items => '[' :: compactItems items ++ [']']
  | .record fields => '{' :: compactFields fields ++ ['}']

def compactItems : List Document → List Char
  | [] => []
  | [d] => compact d
  | d :: ds => compact d ++ ',' :: compactItems ds

/-- The fields of a record, divided by commas. -/
def compactFields : List (String × Document) → List Char
  | [] => []
  | [(k, d)] => quote k ++ ':' :: compact d
  | (k, d) :: fs => quote k ++ ':' :: compact d ++ ',' :: compactFields fs

end

/-- A line break and the indentation of a level. -/
def newline (level : Nat) : List Char :=
  '\n' :: List.replicate (2 * level) ' '

mutual

/-- A document over several lines, nested `level` deep. Empty lists and records stay on one line. -/
def prettyAt (level : Nat) : Document → List Char
  | .null => "null".toList
  | .flag b => flagText b
  | .text s => quote s
  | .list [] => ['[', ']']
  | .list (d :: ds) =>
    '[' :: newline (level + 1) ++ prettyItems (level + 1) (d :: ds) ++ newline level ++ [']']
  | .record [] => ['{', '}']
  | .record (f :: fs) =>
    '{' :: newline (level + 1) ++ prettyFields (level + 1) (f :: fs) ++ newline level ++ ['}']

def prettyItems (level : Nat) : List Document → List Char
  | [] => []
  | [d] => prettyAt level d
  | d :: ds => prettyAt level d ++ ',' :: newline level ++ prettyItems level ds

def prettyFields (level : Nat) : List (String × Document) → List Char
  | [] => []
  | [(k, d)] => quote k ++ ": ".toList ++ prettyAt level d
  | (k, d) :: fs =>
    quote k ++ ": ".toList ++ prettyAt level d ++ ',' :: newline level ++ prettyFields level fs

end

/-- A document over several lines. -/
def pretty (d : Document) : String := String.ofList (prettyAt 0 d)

end GroovyWorkspace.Json
