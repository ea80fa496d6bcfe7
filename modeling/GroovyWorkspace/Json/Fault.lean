import GroovyWorkspace.Text.Utf8

/-!
# Faults in a JSON text

What is wrong with a text that is not JSON, and where. While a text is being read a fault is kept as
the part of the text that is left plus a number of bytes beyond its start; line and column are worked
out from these once, when reading has failed.
-/

namespace GroovyWorkspace.Json

/-- Why a text is not JSON. -/
inductive Cause where
  | eofInValue
  | eofInList
  | eofInObject
  | eofInString
  | expectedValue
  | expectedIdent
  | expectedColon
  | expectedListEnd
  | expectedObjectEnd
  | keyNotString
  | invalidNumber
  | numberOutOfRange
  | invalidEscape
  | controlCharacter
  | loneSurrogate
  | unfinishedEscape
  | trailingComma
  | trailingText
  | tooDeep
  deriving DecidableEq, Repr

def Cause.message : Cause → String
  | eofInValue => "EOF while parsing a value"
  | eofInList => "EOF while parsing a list"
  | eofInObject => "EOF while parsing an object"
  | eofInString => "EOF while parsing a string"
  | expectedValue => "expected value"
  | expectedIdent => "expected ident"
  | expectedColon => "expected `:`"
  | expectedListEnd => "expected `,` or `]`"
  | expectedObjectEnd => "expected `,` or `\x7d`"
  | keyNotString => "key must be a string"
  | invalidNumber => "invalid number"
  | numberOutOfRange => "number out of range"
  | invalidEscape => "invalid escape"
  | controlCharacter => "control character (\\u0000-\\u001F) found while parsing a string"
  | loneSurrogate => "lone leading surrogate in hex escape"
  | unfinishedEscape => "unexpected end of hex escape"
  | trailingComma => "trailing comma"
  | trailingText => "trailing characters"
  | tooDeep => "recursion limit exceeded"

/-- A fault found while reading: its cause, the text from the last whole character read onwards,
and how many bytes of that text the fault lies beyond. -/
structure Fault where
  cause : Cause
  rest : List Char
  ahead : Nat := 0
  deriving DecidableEq, Repr

/-- A fault at the first byte of `rest`, which counts as seen. -/
def Fault.here (cause : Cause) (rest : List Char) : Fault := ⟨cause, rest, 1⟩

/-- A fault with its place in the text: lines count from one, columns are bytes since the last
line break. -/
structure Error where
  cause : Cause
  line : Nat
  column : Nat
  deriving DecidableEq, Repr

def Error.message (e : Error) : String :=
  e.cause.message ++ " at line " ++ toString e.line ++ " column " ++ toString e.column

/-- The line and column that follow some bytes. -/
def placeAfter (bytes : List UInt8) : Nat × Nat :=
  bytes.foldl (fun p b => if b = 10 then (p.1 + 1, 0) else (p.1, p.2 + 1)) (1, 0)

/-- Places a fault in the text it was found in. The place never lies beyond the end. -/
def Fault.locate (text : List Char) (f : Fault) : Error :=
  let offset := Text.byteLength text - Text.byteLength f.rest + f.ahead
  let place := placeAfter ((Text.encode (String.ofList text)).take offset)
  ⟨f.cause, place.1, place.2⟩

end GroovyWorkspace.Json
