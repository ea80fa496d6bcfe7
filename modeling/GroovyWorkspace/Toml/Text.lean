import GroovyWorkspace.Text.Hex

/-!
# Strings and blank space in TOML

The four kinds of strings: basic ones with escapes and literal ones without, each on one line or on
several. Line breaks inside a string are line feeds in its value. Bare control characters other than
the tab are refused everywhere.
-/

namespace GroovyWorkspace.Toml

/-- A piece of a text at its start, and the rest; `none` if the text does not start so. -/
abbrev Reader (α : Type) := List Char → Option (α × List Char)

/-- Blank space inside a line. -/
def isSpace (c : Char) : Bool := c = ' ' || c = '\t'

/-- The text from the first character that is not blank space inside a line. -/
def skipSpace (cs : List Char) : List Char := cs.dropWhile isSpace

/-- Whether a character may stand in a comment, or unescaped in a string. -/
def isPlain (c : Char) : Bool := c = '\t' || (' ' ≤ c && c ≤ '~') || 0x80 ≤ c.toNat

/-- The text behind a line break. -/
def newline? : List Char → Option (List Char)
  | '\n' :: rest => some rest
  | '\r' :: '\n' :: rest => some rest
  | _ => none

def skipComment : List Char → List Char
  | '#' :: rest => rest.dropWhile isPlain
  | cs => cs

/-- The text behind the end of a line, which may have blank space and a comment before its break. -/
def lineEnd? (cs : List Char) : Option (List Char) :=
  match skipComment (skipSpace cs) with
  | [] => some []
  | rest => newline? rest

/-- The text behind blank space, line breaks, and comments with the breaks behind them. `fuel` bounds
their number. -/
def skipLinesUpTo : Nat → List Char → List Char
  | 0, cs => cs
  | fuel + 1, cs =>
    match skipSpace cs with
    | '#' :: rest =>
      match newline? (rest.dropWhile isPlain) with
      | some after => skipLinesUpTo fuel after
      | none => '#' :: rest
    | rest =>
      match newline? rest with
      | some after => skipLinesUpTo fuel after
      | none => rest

/-- The text behind blank space, line breaks and comments. -/
def skipLines (cs : List Char) : List Char := skipLinesUpTo (cs.length + 1) cs

/-- The character whose code is given by `count` hexadecimal digits. -/
def codePoint (count : Nat) : Reader Char := fun cs => do
  let code ← Text.hexNumber (cs.take count) 0
  if (cs.take count).length = count ∧ code.isValidChar then
    some (Char.ofNat code, cs.drop count)
  else none

/-- The character named by the escape behind a backslash. -/
def escape : Reader Char
  | 'b' :: rest => some ('\x08', rest)
  | 't' :: rest => some ('\t', rest)
  | 'n' :: rest => some ('\n', rest)
  | 'f' :: rest => some ('\x0c', rest)
  | 'r' :: rest => some ('\r', rest)
  | '"' :: rest => some ('"', rest)
  | '\\' :: rest => some ('\\', rest)
  | 'u' :: rest => codePoint 4 rest
  | 'U' :: rest => codePoint 8 rest
  | _ => none

/-- The characters of a basic string up to its closing quote. `fuel` bounds their number. -/
def basicUpTo : Nat → Reader (List Char)
  | 0, _ => none
  | _ + 1, [] => none
  | fuel + 1, c :: rest =>
    if c = '"' then some ([], rest)
    else if c = '\\' then do
      let (d, after) ← escape rest
      let (ds, after) ← basicUpTo fuel after
      some (d :: ds, after)
    else if isPlain c then do
      let (ds, after) ← basicUpTo fuel rest
      some (c :: ds, after)
    else none

def basicString : Reader (List Char) := fun cs => basicUpTo (cs.length + 1) cs

/-- A literal string from behind its opening apostrophe. -/
def literalString : Reader (List Char)
  | [] => none
  | c :: rest =>
    if c = '\'' then some ([], rest)
    else if isPlain c then do
      let (ds, after) ← literalString rest
      some (c :: ds, after)
    else none

/-- The number of copies of `mark` at the start of a text. -/
def runLength (mark : Char) (cs : List Char) : Nat := (cs.takeWhile (· = mark)).length

/-- The text behind blank space and line breaks. `fuel` bounds the number of breaks. -/
def skipBreaksUpTo : Nat → List Char → List Char
  | 0, cs => cs
  | fuel + 1, cs =>
    match newline? (skipSpace cs) with
    | some after => skipBreaksUpTo fuel after
    | none => skipSpace cs

/-- The text behind a backslash that joins lines: blank space, a line break, and all blank space and
line breaks behind that. -/
def joinedLine? (cs : List Char) : Option (List Char) :=
  (newline? (skipSpace cs)).map fun rest => skipBreaksUpTo (rest.length + 1) rest

/-- The characters of a string on several lines. Up to two quotes may stand before the three that close
it. Escapes are read if `escapes` holds. `fuel` bounds the number of characters. -/
def multilineUpTo (mark : Char) (escapes : Bool) : Nat → Reader (List Char)
  | 0, _ => none
  | _ + 1, [] => none
  | fuel + 1, c :: rest =>
    if c = mark then
      let run := runLength mark (c :: rest)
      if 3 ≤ run then
        let closing := min run 5
        some (List.replicate (closing - 3) mark, (c :: rest).drop closing)
      else do
        let (ds, after) ← multilineUpTo mark escapes fuel rest
        some (c :: ds, after)
    else if c = '\\' ∧ escapes then
      match joinedLine? rest with
      | some after => multilineUpTo mark escapes fuel after
      | none => do
        let (d, after) ← escape rest
        let (ds, after) ← multilineUpTo mark escapes fuel after
        some (d :: ds, after)
    else if isPlain c then do
      let (ds, after) ← multilineUpTo mark escapes fuel rest
      some (c :: ds, after)
    else do
      let after ← newline? (c :: rest)
      let (ds, after) ← multilineUpTo mark escapes fuel after
      some ('\n' :: ds, after)

/-- A string on several lines from behind its three opening quotes. A line break right there does
not count. -/
def multilineString (mark : Char) (escapes : Bool) : Reader (List Char) := fun cs =>
  let body := (newline? cs).getD cs
  multilineUpTo mark escapes (body.length + 1) body

def string : Reader String := fun cs =>
  let read : Option (List Char × List Char) :=
    match cs with
    | '"' :: '"' :: '"' :: rest => multilineString '"' true rest
    | '"' :: rest => basicString rest
    | '\'' :: '\'' :: '\'' :: rest => multilineString '\'' false rest
    | '\'' :: rest => literalString rest
    | _ => none
  read.map fun r => (String.ofList r.1, r.2)

end GroovyWorkspace.Toml
