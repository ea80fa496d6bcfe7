/-!
# A place in a YAML text

Characters still to come, with the line and column they stand at, and the classes of characters that
matter to the grammar. There are five line breaks; of these the line and paragraph separators keep
their identity inside scalars, and the others become line feeds.
-/

namespace GroovyWorkspace.Yaml

/-- Whether a character may stand in a YAML text at all. -/
def isAllowed (c : Char) : Bool :=
  let n := c.toNat
  n = 0x09 || n = 0x0A || n = 0x0D || (0x20 ≤ n && n ≤ 0x7E) || n = 0x85 || (0xA0 ≤ n && n ≤ 0xFFFD) ||
    0x10000 ≤ n

/-- Blank space inside a line. -/
def isBlank (c : Char) : Bool := c = ' ' || c = '\t'

def isBreak (c : Char) : Bool :=
  let n := c.toNat
  n = 0x0D || n = 0x0A || n = 0x85 || n = 0x2028 || n = 0x2029

/-- Letters and digits of ASCII, the hyphen and the underscore. -/
def isWordChar (c : Char) : Bool :=
  ('0' ≤ c && c ≤ '9') || ('A' ≤ c && c ≤ 'Z') || ('a' ≤ c && c ≤ 'z') || c = '_' || c = '-'

/-- What a line break adds to a scalar. -/
def breakChar (c : Char) : Char :=
  if c.toNat = 0x2028 ∨ c.toNat = 0x2029 then c else '\n'

/-- A place in a text. `index` counts characters from the start. -/
structure Cursor where
  rest : List Char
  index : Nat := 0
  line : Nat := 0
  column : Nat := 0
  deriving Repr, Inhabited

namespace Cursor

/-- The character `n` places ahead. -/
def ahead? (cur : Cursor) (n : Nat) : Option Char := cur.rest[n]?

def next? (cur : Cursor) : Option Char := cur.rest.head?

def isAt (cur : Cursor) (c : Char) : Bool := cur.next? = some c

/-- Whether the text ends `n` places ahead, or has blank space or a line break there. -/
def endsWord (cur : Cursor) (n : Nat) : Bool :=
  match cur.ahead? n with
  | none => true
  | some c => isBlank c || isBreak c

def isAtBlank (cur : Cursor) : Bool := cur.next?.any isBlank

def isAtBreak (cur : Cursor) : Bool := cur.next?.any isBreak

/-- The place behind the next character, which breaks no line. -/
def skip (cur : Cursor) : Cursor :=
  match cur.rest with
  | [] => cur
  | _ :: rest => { cur with rest, index := cur.index + 1, column := cur.column + 1 }

/-- The place behind some characters, which break no line. -/
def skipMany (cur : Cursor) (n : Nat) : Cursor :=
  { cur with rest := cur.rest.drop n, index := cur.index + n, column := cur.column + n }

/-- The place behind the next line break; a carriage return and a line feed are one break. -/
def skipBreak (cur : Cursor) : Cursor :=
  match cur.rest with
  | '\r' :: '\n' :: rest => { rest, index := cur.index + 2, line := cur.line + 1, column := 0 }
  | _ :: rest => { rest, index := cur.index + 1, line := cur.line + 1, column := 0 }
  | [] => cur

/-- What the next line break adds to a scalar. -/
def breakText (cur : Cursor) : List Char :=
  match cur.next? with
  | some c => if isBreak c then [breakChar c] else []
  | none => []

/-- The place behind the characters at the start that satisfy `p`, which hold of no line break, and
those characters. -/
def spanLine (cur : Cursor) (p : Char → Bool) : List Char × Cursor :=
  let taken := cur.rest.takeWhile p
  (taken, cur.skipMany taken.length)

def skipBlanks (cur : Cursor) : Cursor := (cur.spanLine isBlank).2

/-- The place behind a comment, if there is one: before the next line break. -/
def skipComment (cur : Cursor) : Cursor :=
  if cur.isAt '#' then (cur.spanLine fun c => !isBreak c).2 else cur

/-- Whether a document starts or ends here: three hyphens or full stops at the start of a line. -/
def isAtDocumentMark (cur : Cursor) (mark : Char) : Bool :=
  cur.column = 0 && cur.rest.take 3 = [mark, mark, mark] && cur.endsWord 3

/-- The place behind what may follow something on its line: blank space, a comment and a line
break. -/
def skipLine? (cur : Cursor) : Option Cursor :=
  let cur := cur.skipBlanks.skipComment
  if cur.isAtBreak then some cur.skipBreak else if cur.rest = [] then some cur else none

end Cursor
end GroovyWorkspace.Yaml
