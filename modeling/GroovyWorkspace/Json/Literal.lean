import GroovyWorkspace.Json.Fault
import GroovyWorkspace.Text.Hex

/-!
# JSON string literals

A literal is read from behind its opening quote. Escapes name a character by a letter or by sixteen
bits in hexadecimal; a character outside the basic plane takes two of the latter, a high and a low
surrogate.
-/

namespace GroovyWorkspace.Json

/-- Four hexadecimal digits. Four bytes are looked at even if they are not digits. -/
def hexWord (cs : List Char) : Except Fault (Nat × List Char) :=
  let bad : Except Fault (Nat × List Char) :=
    if Text.byteLength cs < 4 then .error ⟨.eofInString, [], 0⟩
    else .error ⟨.invalidEscape, cs, 4⟩
  match cs with
  | a :: b :: c :: d :: rest =>
    match Text.hexDigit? a, Text.hexDigit? b, Text.hexDigit? c, Text.hexDigit? d with
    | some w, some x, some y, some z => .ok (((w * 16 + x) * 16 + y) * 16 + z, rest)
    | _, _, _, _ => bad
  | _ => bad

def isHighSurrogate (w : Nat) : Bool := 0xD800 ≤ w && w ≤ 0xDBFF

/-- Whether a word is the second half of a surrogate pair. -/
def isLowSurrogate (w : Nat) : Bool := 0xDC00 ≤ w && w ≤ 0xDFFF

/-- The low surrogate that must follow the high surrogate `high`. -/
def lowSurrogate (high : Nat) : List Char → Except Fault (Char × List Char)
  | [] => .error ⟨.eofInString, [], 0⟩
  | '\\' :: 'u' :: rest => do
    let (low, after) ← hexWord rest
    if isLowSurrogate low then
      .ok (Char.ofNat (0x10000 + (high - 0xD800) * 0x400 + (low - 0xDC00)), after)
    else .error ⟨.loneSurrogate, after, 0⟩
  | ['\\'] => .error ⟨.eofInString, [], 0⟩
  | '\\' :: rest => .error (.here .unfinishedEscape rest)
  | rest => .error (.here .unfinishedEscape rest)

/-- The character named by the escape behind a backslash. -/
def escape : List Char → Except Fault (Char × List Char)
  | [] => .error ⟨.eofInString, [], 0⟩
  | c :: rest =>
    match c with
    | '"' => .ok ('"', rest)
    | '\\' => .ok ('\\', rest)
    | '/' => .ok ('/', rest)
    | 'b' => .ok ('\x08', rest)
    | 'f' => .ok ('\x0c', rest)
    | 'n' => .ok ('\n', rest)
    | 'r' => .ok ('\r', rest)
    | 't' => .ok ('\t', rest)
    | 'u' => do
      let (w, after) ← hexWord rest
      if isLowSurrogate w then .error ⟨.loneSurrogate, after, 0⟩
      else if isHighSurrogate w then lowSurrogate w after
      else .ok (Char.ofNat w, after)
    | _ => .error (.here .invalidEscape (c :: rest))

/-- The characters up to the closing quote. `fuel` bounds their number. -/
def literalUpTo : Nat → List Char → Except Fault (List Char × List Char)
  | 0, cs => .error ⟨.eofInString, cs, 0⟩
  | _ + 1, [] => .error ⟨.eofInString, [], 0⟩
  | fuel + 1, c :: rest =>
    if c = '"' then .ok ([], rest)
    else if c = '\\' then do
      let (d, after) ← escape rest
      let (ds, after) ← literalUpTo fuel after
      .ok (d :: ds, after)
    else if c.toNat < 0x20 then .error (.here .controlCharacter (c :: rest))
    else do
      let (ds, after) ← literalUpTo fuel rest
      .ok (c :: ds, after)

/-- Reads a string literal from behind its opening quote. -/
def literal (cs : List Char) : Except Fault (String × List Char) := do
  let (text, rest) ← literalUpTo (cs.length + 1) cs
  .ok (String.ofList text, rest)

end GroovyWorkspace.Json
