import GroovyWorkspace.Text.Hex
import GroovyWorkspace.Yaml.Cursor

/-!
# Scalars in a YAML text

The texts of plain, quoted and block scalars. A single line break between two pieces of a plain or
quoted scalar is folded into a blank; of several, all but the first are kept. Block scalars keep their
breaks, or fold those between lines that are not indented further.
-/

namespace GroovyWorkspace.Yaml

/-- What has been read between two pieces of a scalar: blank space, or line breaks once `broken` holds.
Blank space is kept backwards. -/
structure Gap where
  blanks : List Char := []
  broken : Bool := false
  lead : List Char := []
  trail : List Char := []
  deriving Repr, Inhabited

namespace Gap

/-- What a gap with line breaks adds to a scalar. -/
def folded (g : Gap) : List Char :=
  if g.lead.head? = some '\n' then if g.trail = [] then [' '] else g.trail
  else g.lead ++ g.trail

/-- What a gap adds to a scalar. -/
def text (g : Gap) : List Char := if g.broken then g.folded else g.blanks.reverse

/-- The gap with one more blank, which counts only before the first line break. -/
def addBlank (g : Gap) (c : Char) : Gap := if g.broken then g else { g with blanks := c :: g.blanks }

def addBreak (g : Gap) (text : List Char) : Gap :=
  if g.broken then { g with trail := g.trail ++ text }
  else { blanks := [], broken := true, lead := text, trail := g.trail }

end Gap

/-- Blank space and line breaks. A tab in the indentation of a line is refused where the column must
reach `indent`. `fuel` bounds their number. -/
def gapUpTo (indent : Option Int) : Nat → Gap → Cursor → Option (Gap × Cursor)
  | 0, g, cur => some (g, cur)
  | fuel + 1, g, cur =>
    match cur.next? with
    | none => some (g, cur)
    | some c =>
      if isBlank c then
        if g.broken ∧ c = '\t' ∧ indent.any (fun i => (cur.column : Int) < i) then none
        else gapUpTo indent fuel (g.addBlank c) cur.skip
      else if isBreak c then gapUpTo indent fuel (g.addBreak cur.breakText) cur.skipBreak
      else some (g, cur)

/-! ## Plain scalars -/

/-- Whether a character ends plain scalars inside lists and mappings in brackets. -/
def isFlowMark (c : Char) : Bool := c = ',' || c = '[' || c = ']' || c = '{' || c = '}'

/-- A piece of a plain scalar without blank space, added to the text before it, which is kept
backwards. A colon ends the scalar if blank space follows; inside brackets it must not stand before
one of them. `fuel` bounds the number of characters. -/
def plainPiece (flow : Bool) :
    Nat → List Char → Gap → Cursor → Option (List Char × Gap × Cursor)
  | 0, text, g, cur => some (text, g, cur)
  | fuel + 1, text, g, cur =>
    match cur.next? with
    | none => some (text, g, cur)
    | some c =>
      if isBlank c || isBreak c then some (text, g, cur)
      else if flow ∧ c = ':' ∧ (cur.ahead? 1).any (fun d => isFlowMark d || d = '?') then none
      else if (c = ':' ∧ cur.endsWord 1) ∨ (flow ∧ isFlowMark c) then some (text, g, cur)
      else plainPiece flow fuel (c :: (g.text.reverse ++ text)) {} cur.skip

/-- A plain scalar. The lines after the first must be indented by `indent` outside brackets. The result
says whether a line break has been read at its end. `fuel` bounds the number of pieces. -/
def plainUpTo (flow : Bool) (indent : Int) :
    Nat → List Char → Gap → Cursor → Option (List Char × Bool × Cursor)
  | 0, text, g, cur => some (text.reverse, g.broken, cur)
  | fuel + 1, text, g, cur =>
    if cur.isAtDocumentMark '-' ∨ cur.isAtDocumentMark '.' ∨ cur.isAt '#' then
      some (text.reverse, g.broken, cur)
    else do
      let (text, g, cur) ← plainPiece flow (cur.rest.length + 1) text g cur
      if ¬ (cur.isAtBlank ∨ cur.isAtBreak) then some (text.reverse, g.broken, cur)
      else do
        let (g, cur) ← gapUpTo (some indent) (cur.rest.length + 1) g cur
        if ¬ flow ∧ (cur.column : Int) < indent then some (text.reverse, g.broken, cur)
        else plainUpTo flow indent fuel text g cur

/-- A plain scalar, and whether a line break has been read at its end. -/
def plainScalar (flow : Bool) (indent : Int) (cur : Cursor) : Option (List Char × Bool × Cursor) :=
  plainUpTo flow indent (cur.rest.length + 1) [] {} cur

/-! ## Quoted scalars -/

/-- The character whose code is given by `count` hexadecimal digits. -/
def hexChar (count : Nat) (cur : Cursor) : Option (Char × Cursor) := do
  let ds := cur.rest.take count
  let code ← Text.hexNumber ds 0
  if ds.length = count ∧ code.isValidChar then some (Char.ofNat code, cur.skipMany count) else none

/-- The character named by the escape behind a backslash. -/
def escape (cur : Cursor) : Option (Char × Cursor) := do
  let c ← cur.next?
  let cur := cur.skip
  match c with
  | '0' => some (Char.ofNat 0, cur)
  | 'a' => some (Char.ofNat 7, cur)
  | 'b' => some (Char.ofNat 8, cur)
  | 't' | '\t' => some ('\t', cur)
  | 'n' => some ('\n', cur)
  | 'v' => some (Char.ofNat 11, cur)
  | 'f' => some (Char.ofNat 12, cur)
  | 'r' => some ('\r', cur)
  | 'e' => some (Char.ofNat 27, cur)
  | ' ' => some (' ', cur)
  | '"' => some ('"', cur)
  | '/' => some ('/', cur)
  | '\\' => some ('\\', cur)
  | 'N' => some (Char.ofNat 0x85, cur)
  | '_' => some (Char.ofNat 0xA0, cur)
  | 'L' => some (Char.ofNat 0x2028, cur)
  | 'P' => some (Char.ofNat 0x2029, cur)
  | 'x' => hexChar 2 cur
  | 'u' => hexChar 4 cur
  | 'U' => hexChar 8 cur
  | _ => none

/-- A piece of a quoted scalar without blank space, kept backwards, and whether it ends with a line
break that is escaped. `fuel` bounds the number of characters. -/
def quotedPiece (single : Bool) : Nat → List Char → Cursor → Option (List Char × Bool × Cursor)
  | 0, text, cur => some (text, false, cur)
  | fuel + 1, text, cur =>
    match cur.next? with
    | none => some (text, false, cur)
    | some c =>
      if isBlank c || isBreak c then some (text, false, cur)
      else if single then
        if c = '\'' then
          if cur.ahead? 1 = some '\'' then quotedPiece single fuel ('\'' :: text) (cur.skipMany 2)
          else some (text, false, cur)
        else quotedPiece single fuel (c :: text) cur.skip
      else if c = '"' then some (text, false, cur)
      else if c = '\\' then
        if (cur.ahead? 1).any isBreak then some (text, true, cur.skip.skipBreak)
        else do
          let (d, cur) ← escape cur.skip
          quotedPiece single fuel (d :: text) cur
      else quotedPiece single fuel (c :: text) cur.skip

/-- A quoted scalar from behind its opening quote. `fuel` bounds the number of pieces. -/
def quotedUpTo (single : Bool) : Nat → List Char → Cursor → Option (List Char × Cursor)
  | 0, _, _ => none
  | fuel + 1, text, cur =>
    if cur.isAtDocumentMark '-' ∨ cur.isAtDocumentMark '.' ∨ cur.rest = [] then none
    else do
      let (text, joined, cur) ← quotedPiece single (cur.rest.length + 1) text cur
      if cur.isAt (if single then '\'' else '"') then some (text.reverse, cur.skip)
      else do
        let (g, cur) ← gapUpTo none (cur.rest.length + 1) { broken := joined } cur
        quotedUpTo single fuel (g.text.reverse ++ text) cur

/-- A quoted scalar from behind its opening quote. -/
def quotedScalar (single : Bool) (cur : Cursor) : Option (List Char × Cursor) :=
  quotedUpTo single (cur.rest.length + 1) [] cur

/-! ## Block scalars -/

/-- What becomes of the line breaks at the end of a block scalar. -/
inductive Chomping where
  | strip
  | clip
  | keep
  deriving DecidableEq, Repr

def chomping? (cur : Cursor) : Option (Chomping × Cursor) :=
  if cur.isAt '+' then some (.keep, cur.skip)
  else if cur.isAt '-' then some (.strip, cur.skip)
  else none

/-- The mark for the indentation, if there is one; it must not be zero. -/
def indentMark? (cur : Cursor) : Option (Option Nat × Cursor) :=
  match cur.next? with
  | some c =>
    if c = '0' then none
    else if '1' ≤ c ∧ c ≤ '9' then some (some (c.toNat - 48), cur.skip)
    else some (none, cur)
  | none => some (none, cur)

/-- The marks behind the character that opens a block scalar, in any order. -/
def blockMarks (cur : Cursor) : Option (Chomping × Option Nat × Cursor) :=
  match chomping? cur with
  | some (chomping, cur) => (indentMark? cur).map fun r => (chomping, r.1, r.2)
  | none => do
    let (indent, cur) ← indentMark? cur
    match indent with
    | none => some (.clip, none, cur)
    | some n =>
      match chomping? cur with
      | some (chomping, cur) => some (chomping, some n, cur)
      | none => some (.clip, some n, cur)

/-- Indentation and empty lines before a line of a block scalar: the line breaks, the deepest column,
and the place reached. While `indent` is not known all blanks are indentation. A tab there is refused.
`fuel` bounds the number of lines. -/
def blockBreaks (indent : Option Nat) :
    Nat → List Char → Nat → Cursor → Option (List Char × Nat × Cursor)
  | 0, breaks, deepest, cur => some (breaks, deepest, cur)
  | fuel + 1, breaks, deepest, cur =>
    let blanks := (cur.rest.takeWhile (· = ' ')).length
    let taken :=
      match indent with
      | none => blanks
      | some i => min blanks (i - cur.column)
    let cur := cur.skipMany taken
    let deepest := max deepest cur.column
    if cur.isAt '\t' ∧ indent.all (fun i => cur.column < i) then none
    else if cur.isAtBreak then
      blockBreaks indent fuel (breaks ++ cur.breakText) deepest cur.skipBreak
    else some (breaks, deepest, cur)

/-- The lines of a block scalar that are indented by `indent`. `lead` is the break before the line and
`trail` the breaks of empty lines behind it; `blankBefore` says whether the line before started with
blank space. The result is the text with the breaks that are left. `fuel` bounds the number of lines. -/
def blockLines (literal : Bool) (indent : Nat) :
    Nat → List Char → List Char → List Char → Bool → Cursor →
      Option (List Char × List Char × List Char × Cursor)
  | 0, text, lead, trail, _, cur => some (text, lead, trail, cur)
  | fuel + 1, text, lead, trail, blankBefore, cur =>
    if cur.column = indent ∧ cur.rest ≠ [] then
      let blank := cur.isAtBlank
      let joint :=
        if ¬ literal ∧ lead.head? = some '\n' ∧ ¬ blankBefore ∧ ¬ blank then
          if trail = [] then [' '] else []
        else lead
      let (content, cur) := cur.spanLine fun c => !isBreak c
      let lead := cur.breakText
      let cur := if cur.isAtBreak then cur.skipBreak else cur
      match blockBreaks (some indent) (cur.rest.length + 1) [] 0 cur with
      | none => none
      | some (breaks, _, cur) =>
        blockLines literal indent fuel (text ++ joint ++ trail ++ content) lead breaks blank cur
    else some (text, lead, trail, cur)

/-- A block scalar from behind the character that opens it, inside a block indented by `parent`. -/
def blockScalar (literal : Bool) (parent : Int) (cur : Cursor) : Option (List Char × Cursor) := do
  let (chomping, mark, cur) ← blockMarks cur
  let cur ← cur.skipLine?
  let given := mark.map fun n => (max parent 0).toNat + n
  let (breaks, deepest, cur) ← blockBreaks given (cur.rest.length + 1) [] 0 cur
  let indent := given.getD (max deepest (max (parent + 1) 1).toNat)
  let (text, lead, trail, cur) ← blockLines literal indent (cur.rest.length + 1) [] [] breaks false cur
  let tail :=
    match chomping with
    | .strip => []
    | .clip => lead
    | .keep => lead ++ trail
  some (text ++ tail, cur)

end GroovyWorkspace.Yaml
