import GroovyWorkspace.Text.Blank
import GroovyWorkspace.Text.CaseTable

/-!
# Lower case

Full lower-casing of a text. Most letters have a lower-case form of one character that does not depend
on what surrounds them. The dotted capital I becomes two characters, and a capital sigma at the end of
a word becomes a final sigma.
-/

namespace GroovyWorkspace.Text

def isCased (c : Char) : Bool := inRanges casedRanges c

/-- Whether a character is passed over when the case of its neighbours matters. -/
def isCaseIgnorable (c : Char) : Bool := inRanges caseIgnorableRanges c

/-- The lower-case form that a letter has by itself. -/
def lowercaseChar (c : Char) : Char :=
  let n := c.toNat
  match lowercaseRuns.find? fun r => r.1 ≤ n && n ≤ r.2.1 && (n - r.1) % r.2.2.1 == 0 with
  | some r => Char.ofNat (r.2.2.2 + (n - r.1))
  | none => c

/-- Whether the first character that counts has case. -/
def startsCased (cs : List Char) : Bool :=
  match cs.dropWhile isCaseIgnorable with
  | c :: _ => isCased c
  | [] => false

/-- The lower-case form of a letter between `before`, written backwards, and `after`. -/
def lowercaseAmid (before : List Char) (c : Char) (after : List Char) : List Char :=
  if c = 'Σ' then
    if startsCased before ∧ ¬ startsCased after then ['ς'] else ['σ']
  else if c = 'İ' then ['i', Char.ofNat 0x307]
  else [lowercaseChar c]

/-- Lower-cases a text of which `before`, written backwards, has been read. -/
def lowercaseFrom (before : List Char) : List Char → List Char
  | [] => []
  | c :: after => lowercaseAmid before c after ++ lowercaseFrom (c :: before) after

def lowercase (s : String) : String := String.ofList (lowercaseFrom [] s.toList)

end GroovyWorkspace.Text
