import GroovyWorkspace.Text.Hex
import GroovyWorkspace.Value

/-!
# The values of YAML scalars

What a plain scalar means. Null and the truth values have few spellings; whole numbers have an
optional sign and may be written in base two, eight or sixteen; other numbers are decimal. Digits that
start with a superfluous zero are text, and so is everything else.
-/

namespace GroovyWorkspace.Yaml

def isNullText (s : List Char) : Bool :=
  s = "null".toList || s = "Null".toList || s = "NULL".toList || s = "~".toList

/-- The truth value that a scalar spells. -/
def boolOfText? (s : List Char) : Option Bool :=
  if s = "true".toList ∨ s = "True".toList ∨ s = "TRUE".toList then some true
  else if s = "false".toList ∨ s = "False".toList ∨ s = "FALSE".toList then some false
  else none

def isSign (c : Char) : Bool := c = '+' || c = '-'

def isDigit (c : Char) : Bool := '0' ≤ c && c ≤ '9'

/-- Whether a scalar is digits with a superfluous zero at the start. -/
def isZeroLed (s : List Char) : Bool :=
  let body := if s.head?.any isSign then s.drop 1 else s
  1 < body.length && body.head? = some '0' && body.all isDigit

/-- The number that digits of a base stand for; there must be one at least. -/
def naturalIn (base : Nat) (s : List Char) : Option Nat :=
  if s = [] then none
  else
    s.foldl (fun n c => do
      let n ← n
      let d ← Text.hexDigit? c
      if d < base then some (n * base + d) else none) (some 0)

/-- The digits behind the mark of a base, and the base. -/
def basedDigits? : List Char → Option (Nat × List Char)
  | '0' :: 'x' :: rest => some (16, rest)
  | '0' :: 'o' :: rest => some (8, rest)
  | '0' :: 'b' :: rest => some (2, rest)
  | _ => none

/-- A number without a sign in a base other than ten. -/
def basedNatural? (s : List Char) : Option Nat := do
  let (base, digits) ← basedDigits? s
  naturalIn base digits

/-- The whole number that a scalar spells. -/
def intOfText? (s : List Char) : Option Int :=
  match s with
  | '-' :: body =>
    match basedNatural? body with
    | some n => some (-(n : Int))
    | none => if isZeroLed s then none else (naturalIn 10 body).map fun n => -(n : Int)
  | _ =>
    let body := if s.head? = some '+' then s.drop 1 else s
    match basedNatural? body with
    | some n => some n
    | none => if isZeroLed s then none else (naturalIn 10 body).map fun n => (n : Int)

/-- What a whole number comes to: a value if it has 64 bits, nothing if it has up to 128, and otherwise
it is no whole number. -/
inductive Width where
  | fits
  | tooWide
  | notWhole
  deriving DecidableEq, Repr

/-- The width of a whole number, which may have a sign if it is not positive. -/
def Width.of (n : Int) : Width :=
  if -Int.pow 2 63 ≤ n ∧ n < Int.pow 2 64 then .fits
  else if -Int.pow 2 127 ≤ n ∧ n < Int.pow 2 128 then .tooWide
  else .notWhole

/-- A decimal number with an optional fraction and exponent, as its digits and a power of ten. -/
def decimalParts? (s : List Char) : Option (Nat × Int) :=
  let whole := s.takeWhile isDigit
  let rest := s.dropWhile isDigit
  let (frac, rest) :=
    match rest with
    | '.' :: after => (after.takeWhile isDigit, after.dropWhile isDigit)
    | _ => ([], rest)
  let digits := whole ++ frac
  if digits = [] then none
  else do
    let n ← naturalIn 10 digits
    let power : Int ←
      match rest with
      | [] => some (0 : Int)
      | e :: after =>
        if e = 'e' ∨ e = 'E' then
          match after with
          | '-' :: ds => (naturalIn 10 ds).map fun n => -(n : Int)
          | '+' :: ds => (naturalIn 10 ds).map fun n => (n : Int)
          | ds => (naturalIn 10 ds).map fun n => (n : Int)
        else none
    some (n, power - frac.length)

/-- The binary64 number that a scalar spells. One that is too large is none. -/
def floatOfText? (s : List Char) : Option Binary64 :=
  let positive := if s.head? = some '+' then s.drop 1 else s
  if s.head? = some '+' ∧ positive.head?.any isSign then none
  else if [".inf", ".Inf", ".INF"].any (fun w => positive = w.toList) then some (.infinity false)
  else if ["-.inf", "-.Inf", "-.INF"].any (fun w => s = w.toList) then some (.infinity true)
  else if [".nan", ".NaN", ".NAN"].any (fun w => s = w.toList) then some .nan
  else
    let (negative, body) :=
      match positive with
      | '-' :: body => (true, body)
      | _ => (false, positive)
    match decimalParts? body with
    | none => none
    | some (digits, power) =>
      let x := Binary64.ofDecimal digits power
      if ¬ x.isFinite then none else some (if negative then x.neg else x)

/-- The value of a plain scalar without a tag. A whole number of more than 64 and up to 128 bits has
none. -/
def plainValue? (s : List Char) : Option Value :=
  if s = [] ∨ isNullText s then some .null
  else
    match boolOfText? s with
    | some b => some (.bool b)
    | none =>
      let other : Value :=
        match if isZeroLed s then none else floatOfText? s with
        | some x => .ofBinary64 x
        | none => .string (String.ofList s)
      match intOfText? s with
      | some n =>
        match Width.of n with
        | .fits => some (.int n)
        | .tooWide => none
        | .notWhole => some other
      | none => some other

def standardTag (name : String) : List Char := ("tag:yaml.org,2002:" ++ name).toList

/-- The value of a scalar. Local tags have none; the tags for null, truth values and numbers must fit
the text; every other tag makes it text. -/
def scalarValue? (s : List Char) (plain : Bool) : Option (List Char) → Option Value
  | none => if plain then plainValue? s else some (.string (String.ofList s))
  | some tag =>
    if tag.head? = some '!' then none
    else if tag = standardTag "bool" then (boolOfText? s).map .bool
    else if tag = standardTag "int" then
      match intOfText? s with
      | some n => if Width.of n = .fits then some (.int n) else none
      | none => none
    else if tag = standardTag "float" then (floatOfText? s).map Value.ofBinary64
    else if tag = standardTag "null" then if isNullText s then some .null else none
    else some (.string (String.ofList s))

end GroovyWorkspace.Yaml
