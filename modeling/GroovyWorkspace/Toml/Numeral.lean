import GroovyWorkspace.Number.Binary64
import GroovyWorkspace.Toml.Text

/-!
# Numbers in TOML

Whole numbers of 64 bits, in decimal with a sign or in another base without, and binary64 numbers with
a fraction or an exponent or both. Single underscores may stand between digits.
-/

namespace GroovyWorkspace.Toml

/-- The value of a digit in a base of at most sixteen. -/
def digitIn (base : Nat) (c : Char) : Option Nat :=
  match Text.hexDigit? c with
  | some d => if d < base then some d else none
  | none => none

/-- Digits at the start of a text, single underscores between them being passed over. -/
def digitRun (base : Nat) : List Char → List Nat × List Char
  | '_' :: d :: rest =>
    match digitIn base d with
    | some n => let r := digitRun base rest; (n :: r.1, r.2)
    | none => ([], '_' :: d :: rest)
  | d :: rest =>
    match digitIn base d with
    | some n => let r := digitRun base rest; (n :: r.1, r.2)
    | none => ([], d :: rest)
  | [] => ([], [])

/-- At least one digit, and further ones with underscores between them. -/
def someDigits (base : Nat) : Reader (List Nat)
  | [] => none
  | d :: rest => (digitIn base d).map fun n => let r := digitRun base rest; (n :: r.1, r.2)

def ofDigits (base : Nat) (ds : List Nat) : Nat := ds.foldl (fun n d => n * base + d) 0

/-- A decimal whole number: its sign and digits. Only zero starts with zero. -/
def decimal : Reader (Bool × List Nat) := fun cs =>
  let (negative, body) :=
    match cs with
    | '-' :: rest => (true, rest)
    | '+' :: rest => (false, rest)
    | _ => (false, cs)
  match body with
  | '0' :: rest => some ((negative, [0]), rest)
  | _ => (someDigits 10 body).map fun r => ((negative, r.1), r.2)

def exponent : Reader Int
  | c :: rest =>
    if c = 'e' ∨ c = 'E' then
      let (negative, body) :=
        match rest with
        | '-' :: after => (true, after)
        | '+' :: after => (false, after)
        | _ => (false, rest)
      (someDigits 10 body).map fun r =>
        let n : Int := ofDigits 10 r.1
        (if negative then -n else n, r.2)
    else none
  | [] => none

/-- The digits behind the point of a number. -/
def fraction : Reader (List Nat)
  | '.' :: rest => someDigits 10 rest
  | _ => none

/-- The binary64 with a sign, digits, digits behind the point, and exponent. What is too large is
refused, but only if it is positive. -/
def binary64 (negative : Bool) (whole frac : List Nat) (power : Int) : Option Binary64 :=
  let x := Binary64.ofDecimal (ofDigits 10 (whole ++ frac)) (power - frac.length)
  if negative then some x.neg else if x.isFinite then some x else none

/-- A number with a fraction or an exponent. -/
def float : Reader Binary64 := fun cs => do
  let ((negative, whole), rest) ← decimal cs
  match fraction rest with
  | some (frac, rest) =>
    match exponent rest with
    | some (power, rest) => (binary64 negative whole frac power).map (·, rest)
    | none => (binary64 negative whole frac 0).map (·, rest)
  | none => do
    let (power, rest) ← exponent rest
    (binary64 negative whole [] power).map (·, rest)

/-- Infinity or no number, with or without a sign. -/
def special : Reader Binary64 := fun cs =>
  let (negative, body) :=
    match cs with
    | '-' :: rest => (true, rest)
    | '+' :: rest => (false, rest)
    | _ => (false, cs)
  match body with
  | 'i' :: 'n' :: 'f' :: rest => some (Binary64.infinity negative, rest)
  | 'n' :: 'a' :: 'n' :: rest => some (Binary64.nan, rest)
  | _ => none

/-- A whole number of 64 bits with a sign. -/
def inWord (n : Int) : Option Int := if -Int.pow 2 63 ≤ n ∧ n < Int.pow 2 63 then some n else none

/-- The digits of a whole number in a base other than ten. -/
def basedInteger (base : Nat) : Reader Int := fun cs => do
  let (ds, rest) ← someDigits base cs
  (inWord (ofDigits base ds)).map (·, rest)

def integer : Reader Int
  | '0' :: 'x' :: rest => basedInteger 16 rest
  | '0' :: 'o' :: rest => basedInteger 8 rest
  | '0' :: 'b' :: rest => basedInteger 2 rest
  | cs => do
    let ((negative, ds), rest) ← decimal cs
    let n : Int := ofDigits 10 ds
    (inWord (if negative then -n else n)).map (·, rest)

end GroovyWorkspace.Toml
