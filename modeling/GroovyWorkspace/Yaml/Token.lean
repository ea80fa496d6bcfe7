import GroovyWorkspace.Text.Utf8
import GroovyWorkspace.Yaml.ScalarText

/-!
# YAML tokens

The tokens of a text. The indentation of blocks shows in tokens that open and close them. A key that is
not announced is recognised only at the colon behind it; until then its place among the tokens is kept,
and the tokens for the key and its mapping are put there afterwards. Such a key stays on one line and
within 1024 characters.
-/

namespace GroovyWorkspace.Yaml

inductive Token where
  | streamEnd
  | version (major minor : Nat)
  | tagShorthand (handle expansion : List Char)
  | documentStart
  | documentEnd
  | blockSequenceStart
  | blockMappingStart
  | blockEnd
  | flowSequenceStart
  | flowSequenceEnd
  | flowMappingStart
  | flowMappingEnd
  | blockEntry
  | flowEntry
  | key
  | value
  | ref (name : List Char)
  | anchor (name : List Char)
  | tag (handle suffix : List Char)
  | scalar (text : List Char) (plain : Bool)
  deriving DecidableEq, Repr, Inhabited

/-- A place where a key may have started: how many tokens come before it, and where it stands. It is
required to be a key if it stands at the indentation of its block. -/
structure KeyPlace where
  required : Bool
  before : Nat
  index : Nat
  line : Nat
  column : Nat
  deriving Repr, Inhabited

/-- A text of which some tokens have been read, latest first. `keys` has a possible key for each level
of brackets, innermost first; `indents` are the indentations of the blocks around the innermost. -/
structure Scanner where
  cursor : Cursor
  tokens : List Token := []
  keys : List (Option KeyPlace) := [none]
  keyAllowed : Bool := true
  indent : Int := -1
  indents : List Int := []
  deriving Inhabited

namespace Scanner

/-- Whether the text stands inside brackets. -/
def inFlow (s : Scanner) : Bool := 1 < s.keys.length

def push (s : Scanner) (t : Token) : Scanner := { s with tokens := t :: s.tokens }

/-- Adds a token behind the first `before` tokens. -/
def pushAt (s : Scanner) (before : Nat) (t : Token) : Scanner :=
  { s with tokens := s.tokens.insertIdx (s.tokens.length - before) t }

/-- Moves to another place in the text. -/
def moveTo (s : Scanner) (cur : Cursor) : Scanner := { s with cursor := cur }

/-- Allows or forbids a key to start at the next token. -/
def allowKey (s : Scanner) (allowed : Bool) : Scanner := { s with keyAllowed := allowed }

/-! ## Possible keys -/

/-- Whether a possible key is too far behind. -/
def isStale (cur : Cursor) (k : KeyPlace) : Bool :=
  k.line < cur.line || k.index + 1024 < cur.index

/-- Gives up the possible keys that are too far behind; one that is required is an error. -/
def dropStaleKeys (s : Scanner) : Option Scanner :=
  if s.keys.any fun k => k.any fun k => isStale s.cursor k && k.required then none
  else some { s with keys := s.keys.map fun k => k.filter fun k => !isStale s.cursor k }

/-- Gives up the possible key of the innermost level; one that is required is an error. -/
def dropKey (s : Scanner) : Option Scanner :=
  match s.keys with
  | some k :: rest => if k.required then none else some { s with keys := none :: rest }
  | _ => some s

/-- Notes that the next token may start a key, if keys are allowed here. -/
def noteKey (s : Scanner) : Option Scanner :=
  if ¬ s.keyAllowed then some s
  else do
    let s ← s.dropKey
    let cur := s.cursor
    let place : KeyPlace :=
      { required := !s.inFlow && s.indent = cur.column
        before := s.tokens.length
        index := cur.index
        line := cur.line
        column := cur.column }
    some { s with keys := some place :: s.keys.drop 1 }

/-! ## Blocks -/

/-- Opens a block at a column, if that is deeper than the innermost block. The token for it goes behind
the first `before` tokens, or to the end. -/
def openBlock (s : Scanner) (column : Nat) (before : Option Nat) (t : Token) : Scanner :=
  if s.inFlow ∨ (column : Int) ≤ s.indent then s
  else
    let s := { s with indents := s.indent :: s.indents, indent := column }
    match before with
    | some n => s.pushAt n t
    | none => s.push t

/-- Closes blocks that are indented deeper than a column. -/
def closeDeeper (column : Int) : Int → List Int → List Token → Int × List Int × List Token
  | indent, [], ts => (indent, [], ts)
  | indent, outer :: rest, ts =>
    if column < indent then closeDeeper column outer rest (.blockEnd :: ts)
    else (indent, outer :: rest, ts)

/-- Closes the blocks that are indented deeper than a column. -/
def closeBlocks (s : Scanner) (column : Int) : Scanner :=
  if s.inFlow then s
  else
    let r := closeDeeper column s.indent s.indents s.tokens
    { s with indent := r.1, indents := r.2.1, tokens := r.2.2 }

/-! ## Blank space -/

/-- Moves to the next token. Tabs are not indentation: where a key may start they are not passed
over. `fuel` bounds the number of lines. -/
def toTokenUpTo : Nat → Scanner → Scanner
  | 0, s => s
  | fuel + 1, s =>
    let tabs := s.inFlow || !s.keyAllowed
    let cur := (s.cursor.spanLine fun c => c = ' ' || (tabs && c = '\t')).2.skipComment
    if cur.isAtBreak then
      toTokenUpTo fuel
        { s with cursor := cur.skipBreak, keyAllowed := s.keyAllowed || !s.inFlow }
    else s.moveTo cur

/-- Moves to the next token. A byte order mark at the start of the text is passed over. -/
def toToken (s : Scanner) : Scanner :=
  let s :=
    if s.cursor.index = 0 ∧ s.cursor.next?.any (fun c => c.toNat = 0xFEFF) then s.moveTo s.cursor.skip
    else s
  toTokenUpTo (s.cursor.rest.length + 1) s

/-! ## Directives, anchors and tags -/

/-- A number of at most nine digits. -/
def versionNumber (cur : Cursor) : Option (Nat × Cursor) :=
  let (ds, after) := cur.spanLine fun c => '0' ≤ c && c ≤ '9'
  if ds = [] ∨ 9 < ds.length then none
  else some (ds.foldl (fun n c => n * 10 + (c.toNat - 48)) 0, after)

/-- The handle of a tag: an exclamation mark, and possibly letters and another mark. In a directive
the second mark is needed if there are letters. -/
def tagHandle (directive : Bool) (cur : Cursor) : Option (List Char × Cursor) :=
  if ¬ cur.isAt '!' then none
  else
    let (word, after) := cur.skip.spanLine isWordChar
    if after.isAt '!' then some ('!' :: word ++ ['!'], after.skip)
    else if directive ∧ word ≠ [] then none
    else some ('!' :: word, after)

/-- Whether a character may stand in a tag. -/
def isTagChar (verbatim : Bool) (c : Char) : Bool :=
  isWordChar c || ";/?:@&=+$.%!~*'()".toList.contains c || (verbatim && ",[]".toList.contains c)

def percentOctet (cur : Cursor) : Option (Nat × Cursor) :=
  match cur.rest with
  | '%' :: a :: b :: _ => (Text.hexNumber [a, b] 0).map fun n => (n, cur.skipMany 3)
  | _ => none

/-- The number of octets of a character by its first, and the bits that this carries. -/
def leadOctet (n : Nat) : Option (Nat × Nat) :=
  if n < 0x80 then some (1, n)
  else if n / 0x20 = 6 then some (2, n % 0x20)
  else if n / 0x10 = 14 then some (3, n % 0x10)
  else if n / 8 = 30 then some (4, n % 8)
  else none

def trailOctets : Nat → Nat → Cursor → Option (Nat × Cursor)
  | 0, value, cur => some (value, cur)
  | count + 1, value, cur => do
    let (n, cur) ← percentOctet cur
    if n / 0x40 = 2 then trailOctets count (value * 0x40 + n % 0x40) cur else none

/-- A character whose octets are written with percent signs. -/
def percentChar (cur : Cursor) : Option (Char × Cursor) := do
  let (n, cur) ← percentOctet cur
  let (count, bits) ← leadOctet n
  let (code, cur) ← trailOctets (count - 1) bits cur
  some (Char.ofNat code, cur)

/-- The characters of a tag. `fuel` bounds their number. -/
def tagCharsUpTo (verbatim : Bool) : Nat → List Char → Cursor → Option (List Char × Cursor)
  | 0, text, cur => some (text.reverse, cur)
  | fuel + 1, text, cur =>
    match cur.next? with
    | some c =>
      if ¬ isTagChar verbatim c then some (text.reverse, cur)
      else if c = '%' then do
        let (d, cur) ← percentChar cur
        tagCharsUpTo verbatim fuel (d :: text) cur
      else tagCharsUpTo verbatim fuel (c :: text) cur.skip
    | none => some (text.reverse, cur)

def tagChars (verbatim : Bool) (cur : Cursor) : Option (List Char × Cursor) :=
  tagCharsUpTo verbatim (cur.rest.length + 1) [] cur

/-- A directive from behind its percent sign. -/
def directive (cur : Cursor) : Option (Token × Cursor) := do
  let (name, cur) := cur.spanLine isWordChar
  if name = [] ∨ ¬ cur.endsWord 0 then none
  else if name = "YAML".toList then do
    let (major, cur) ← versionNumber cur.skipBlanks
    if ¬ cur.isAt '.' then none
    else do
      let (minor, cur) ← versionNumber cur.skip
      let cur ← cur.skipLine?
      some (.version major minor, cur)
  else if name = "TAG".toList then do
    let (handle, cur) ← tagHandle true cur.skipBlanks
    if ¬ cur.isAtBlank then none
    else do
      let (expansion, cur) ← tagChars true cur.skipBlanks
      if expansion = [] ∨ ¬ cur.endsWord 0 then none
      else do
        let cur ← cur.skipLine?
        some (.tagShorthand handle expansion, cur)
  else none

/-- The name of an anchor, and the place behind it, where only some characters may stand. -/
def anchorName (cur : Cursor) : Option (List Char × Cursor) :=
  let (name, after) := cur.spanLine isWordChar
  let ends := after.endsWord 0 || after.next?.any fun c => "?:,]\x7d%@`".toList.contains c
  if name = [] ∨ ¬ ends then none else some (name, after)

/-- A tag: verbatim in angle brackets, with a handle, or local. -/
def tagToken (cur : Cursor) : Option (Token × Cursor) :=
  if cur.ahead? 1 = some '<' then do
    let (suffix, cur) ← tagChars true (cur.skipMany 2)
    if suffix = [] ∨ ¬ cur.isAt '>' then none else some (.tag [] suffix, cur.skip)
  else do
    let (handle, after) ← tagHandle false cur
    if 1 < handle.length ∧ handle.getLast? = some '!' then do
      let (suffix, after) ← tagChars false after
      if suffix = [] then none else some (.tag handle suffix, after)
    else do
      let (rest, after) ← tagChars false after
      let suffix := handle.drop 1 ++ rest
      some (if suffix = [] then .tag [] ['!'] else .tag ['!'] suffix, after)

/-! ## One token -/

/-- Adds a token of some characters, which must stand where it may be. -/
def pushMark (s : Scanner) (count : Nat) (t : Token) : Scanner :=
  (s.moveTo (s.cursor.skipMany count)).push t

def streamEnd (s : Scanner) : Option Scanner := do
  let s ← (s.closeBlocks (-1)).dropKey
  some ((s.allowKey false).push .streamEnd)

def directiveLine (s : Scanner) : Option Scanner := do
  let s ← (s.closeBlocks (-1)).dropKey
  let (t, cur) ← directive s.cursor.skip
  some (((s.allowKey false).moveTo cur).push t)

/-- The start or end of a document. -/
def documentMark (s : Scanner) (t : Token) : Option Scanner := do
  let s ← (s.closeBlocks (-1)).dropKey
  some ((s.allowKey false).pushMark 3 t)

def openFlow (s : Scanner) (t : Token) : Option Scanner := do
  let s ← s.noteKey
  some (({ s with keys := none :: s.keys, keyAllowed := true }).pushMark 1 t)

def closeFlow (s : Scanner) (t : Token) : Option Scanner := do
  let s ← s.dropKey
  let keys := if s.inFlow then s.keys.drop 1 else s.keys
  some (({ s with keys, keyAllowed := false }).pushMark 1 t)

/-- A comma between brackets. -/
def flowEntry (s : Scanner) : Option Scanner := do
  let s ← s.dropKey
  some ((s.allowKey true).pushMark 1 .flowEntry)

/-- A hyphen before an item of a block. -/
def blockEntry (s : Scanner) : Option Scanner :=
  if ¬ s.inFlow ∧ ¬ s.keyAllowed then none
  else do
    let s ← (s.openBlock s.cursor.column none .blockSequenceStart).dropKey
    some ((s.allowKey true).pushMark 1 .blockEntry)

/-- A question mark before a key. -/
def keyMark (s : Scanner) : Option Scanner :=
  if ¬ s.inFlow ∧ ¬ s.keyAllowed then none
  else do
    let s ← (s.openBlock s.cursor.column none .blockMappingStart).dropKey
    some ((s.allowKey !s.inFlow).pushMark 1 .key)

/-- A colon before a value. If a key may have started before it, it has. -/
def valueMark (s : Scanner) : Option Scanner :=
  match s.keys with
  | some k :: rest =>
    let s := (s.pushAt k.before .key).openBlock k.column (some k.before) .blockMappingStart
    some (({ s with keys := none :: rest, keyAllowed := false }).pushMark 1 .value)
  | _ =>
    if ¬ s.inFlow ∧ ¬ s.keyAllowed then none
    else
      let s := s.openBlock s.cursor.column none .blockMappingStart
      some ((s.allowKey !s.inFlow).pushMark 1 .value)

/-- An anchor or a reference to one. -/
def anchorMark (s : Scanner) (token : List Char → Token) : Option Scanner := do
  let s ← s.noteKey
  let (name, cur) ← anchorName s.cursor.skip
  some (((s.allowKey false).moveTo cur).push (token name))

/-- A tag. Blank space must follow, or a comma between brackets. -/
def tagMark (s : Scanner) : Option Scanner := do
  let s ← s.noteKey
  let (t, cur) ← tagToken s.cursor
  if cur.endsWord 0 ∨ (s.inFlow ∧ cur.isAt ',') then
    some (((s.allowKey false).moveTo cur).push t)
  else none

def blockText (s : Scanner) (literal : Bool) : Option Scanner := do
  let s ← s.dropKey
  let (text, cur) ← blockScalar literal s.indent s.cursor.skip
  some (((s.allowKey true).moveTo cur).push (.scalar text false))

def quotedText (s : Scanner) (single : Bool) : Option Scanner := do
  let s ← s.noteKey
  let (text, cur) ← quotedScalar single s.cursor.skip
  some (((s.allowKey false).moveTo cur).push (.scalar text false))

/-- A plain scalar. A key may follow it on a line of its own. -/
def plainText (s : Scanner) : Option Scanner := do
  let s ← s.noteKey
  let (text, broken, cur) ← plainScalar s.inFlow (s.indent + 1) s.cursor
  some (((s.allowKey broken).moveTo cur).push (.scalar text true))

/-- Whether a plain scalar may start with a character. -/
def startsPlain (s : Scanner) (c : Char) : Bool :=
  !(isBlank c || isBreak c || "-?:,[]\x7b\x7d#&*!|>'\"%@`".toList.contains c) ||
    (c = '-' && !(s.cursor.ahead? 1).any isBlank) ||
    (!s.inFlow && (c = '?' || c = ':') && !s.cursor.endsWord 1)

/-- Reads the token that starts with a character. -/
def tokenAt (s : Scanner) (c : Char) : Option Scanner :=
  let cur := s.cursor
  if cur.column = 0 ∧ c = '%' then s.directiveLine
  else if cur.isAtDocumentMark '-' then s.documentMark .documentStart
  else if cur.isAtDocumentMark '.' then s.documentMark .documentEnd
  else if c = '[' then s.openFlow .flowSequenceStart
  else if c = '{' then s.openFlow .flowMappingStart
  else if c = ']' then s.closeFlow .flowSequenceEnd
  else if c = '}' then s.closeFlow .flowMappingEnd
  else if c = ',' then s.flowEntry
  else if c = '-' ∧ cur.endsWord 1 then s.blockEntry
  else if c = '?' ∧ (s.inFlow ∨ cur.endsWord 1) then s.keyMark
  else if c = ':' ∧ (s.inFlow ∨ cur.endsWord 1) then s.valueMark
  else if c = '*' then s.anchorMark .ref
  else if c = '&' then s.anchorMark .anchor
  else if c = '!' then s.tagMark
  else if c = '|' ∧ ¬ s.inFlow then s.blockText true
  else if c = '>' ∧ ¬ s.inFlow then s.blockText false
  else if c = '\'' then s.quotedText true
  else if c = '"' then s.quotedText false
  else if s.startsPlain c then s.plainText
  else none

/-- Reads the next token, with the tokens that close blocks before it. The flag says whether the text
has ended. -/
def step (s : Scanner) : Option (Scanner × Bool) := do
  let s ← s.toToken.dropStaleKeys
  let s := s.closeBlocks s.cursor.column
  match s.cursor.next? with
  | none => s.streamEnd.map (·, true)
  | some c => (s.tokenAt c).map (·, false)

/-- Reads tokens to the end of the text. `fuel` bounds their number. -/
def run : Nat → Scanner → Option (List Token)
  | 0, _ => none
  | fuel + 1, s => do
    let (s, ended) ← s.step
    if ended then some s.tokens.reverse else run fuel s

end Scanner

def tokens? (text : List Char) : Option (List Token) :=
  let cs := Text.dropMark text
  if cs.all isAllowed then Scanner.run (cs.length + 2) { cursor := { rest := cs } } else none

end GroovyWorkspace.Yaml
