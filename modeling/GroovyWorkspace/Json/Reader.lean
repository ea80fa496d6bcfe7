import GroovyWorkspace.Json.Literal
import GroovyWorkspace.Json.Numeral

/-!
# Reading JSON

Strict JSON: no comments, no trailing commas, no text after the value. Lists and objects may be
nested one level less deep than the limit. Of several entries with one key the last counts.
-/

namespace GroovyWorkspace.Json

def isSpace (c : Char) : Bool := c = ' ' || c = '\n' || c = '\t' || c = '\r'

/-- The text from the first character that is not white space. -/
def skipSpace (cs : List Char) : List Char := cs.dropWhile isSpace

/-- A piece of JSON at the start of a text, and the rest of the text. -/
abbrev Reader (α : Type) := List Char → Except Fault (α × List Char)

/-- The remaining letters of a word, which stands for `v`. -/
def word (v : Value) : List Char → Reader Value
  | [], rest => .ok (v, rest)
  | _ :: _, [] => .error ⟨.eofInValue, [], 0⟩
  | w :: ws, c :: rest =>
    if c = w then word v ws rest else .error (.here .expectedIdent (c :: rest))

/-- The items of a list from behind its opening bracket, or from behind an item if `first` is
false. `fuel` bounds their number. -/
def items {α : Type} (item : Reader α) : Nat → Bool → Reader (List α)
  | 0, _, cs => .error (.here .expectedListEnd cs)
  | fuel + 1, first, cs =>
    match skipSpace cs with
    | [] => .error ⟨.eofInList, [], 0⟩
    | ']' :: rest => .ok ([], rest)
    | c :: rest =>
      if first then do
        let (v, after) ← item (c :: rest)
        let (vs, after) ← items item fuel false after
        .ok (v :: vs, after)
      else if c = ',' then
        match skipSpace rest with
        | [] => .error ⟨.eofInValue, [], 0⟩
        | ']' :: after => .error (.here .trailingComma (']' :: after))
        | next => do
          let (v, after) ← item next
          let (vs, after) ← items item fuel false after
          .ok (v :: vs, after)
      else .error (.here .expectedListEnd (c :: rest))

/-- The colon after a key and the value behind it. -/
def memberValue {α : Type} (item : Reader α) : Reader α := fun cs =>
  match skipSpace cs with
  | [] => .error ⟨.eofInObject, [], 0⟩
  | ':' :: rest => item rest
  | rest => .error (.here .expectedColon rest)

/-- An entry of an object from behind the quote that opens its key. -/
def member {α : Type} (item : Reader α) : Reader (String × α) := fun cs => do
  let (key, after) ← literal cs
  let (v, after) ← memberValue item after
  .ok ((key, v), after)

/-- The entries of an object from behind its opening brace, or from behind an entry if `first` is
false. `fuel` bounds their number. -/
def members {α : Type} (item : Reader α) : Nat → Bool → Reader (List (String × α))
  | 0, _, cs => .error (.here .expectedObjectEnd cs)
  | fuel + 1, first, cs =>
    match skipSpace cs with
    | [] => .error ⟨.eofInObject, [], 0⟩
    | '}' :: rest => .ok ([], rest)
    | c :: rest =>
      if first then
        if c = '"' then do
          let (m, after) ← member item rest
          let (ms, after) ← members item fuel false after
          .ok (m :: ms, after)
        else .error (.here .keyNotString (c :: rest))
      else if c = ',' then
        match skipSpace rest with
        | [] => .error ⟨.eofInValue, [], 0⟩
        | '}' :: after => .error (.here .trailingComma ('}' :: after))
        | '"' :: after => do
          let (m, after) ← member item after
          let (ms, after) ← members item fuel false after
          .ok (m :: ms, after)
        | next => .error (.here .keyNotString next)
      else .error (.here .expectedObjectEnd (c :: rest))

/-- Reads a value. `depth` is one more than the number of levels that may be opened in it. -/
def value : Nat → Reader Value
  | 0, cs => .error (.here .tooDeep (skipSpace cs))
  | depth + 1, cs =>
    match skipSpace cs with
    | [] => .error ⟨.eofInValue, [], 0⟩
    | c :: rest =>
      if c = 'n' then word .null ['u', 'l', 'l'] rest
      else if c = 't' then word (.bool true) ['r', 'u', 'e'] rest
      else if c = 'f' then word (.bool false) ['a', 'l', 's', 'e'] rest
      else if c = '-' then numeral true rest
      else if (digit? c).isSome then numeral false (c :: rest)
      else if c = '"' then do
        let (s, after) ← literal rest
        .ok (.string s, after)
      else if c = '[' then
        if depth = 0 then .error (.here .tooDeep (c :: rest))
        else do
          let (vs, after) ← items (value depth) (rest.length + 1) true rest
          .ok (.array vs, after)
      else if c = '{' then
        if depth = 0 then .error (.here .tooDeep (c :: rest))
        else do
          let (ms, after) ← members (value depth) (rest.length + 1) true rest
          .ok (.object (Entries.ofList ms), after)
      else .error (.here .expectedValue (c :: rest))

/-- A value with nothing but white space around it. -/
def document (depth : Nat) (cs : List Char) : Except Fault Value := do
  let (v, after) ← value depth cs
  match skipSpace after with
  | [] => .ok v
  | rest => .error (.here .trailingText rest)

/-- The nesting at which settings files are refused. -/
def depthLimit : Nat := 128

/-- Reads a JSON text in which fewer than `depth` levels are nested. -/
def parseWithin (depth : Nat) (cs : List Char) : Except Error Value :=
  match document depth cs with
  | .ok v => .ok v
  | .error f => .error (f.locate cs)

def parse (cs : List Char) : Except Error Value := parseWithin depthLimit cs

end GroovyWorkspace.Json
