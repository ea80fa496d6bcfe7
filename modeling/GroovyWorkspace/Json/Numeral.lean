import GroovyWorkspace.Json.Fault
import GroovyWorkspace.Value

/-!
# JSON numerals

A numeral is read into its digits first and valued afterwards. Whole numbers of 64 bits stay whole.
Every other numeral is a binary64: the digits that fit into 64 bits are rounded, and the result is
scaled by the power of ten that is left.
-/

namespace GroovyWorkspace.Json

def digit? (c : Char) : Option Nat :=
  if '0' ≤ c ∧ c ≤ '9' then some (c.toNat - 48) else none

/-- The digits at the start of a text, and the rest. -/
def digits : List Char → List Nat × List Char
  | [] => ([], [])
  | c :: rest =>
    match digit? c with
    | some d => let r := digits rest; (d :: r.1, r.2)
    | none => ([], c :: rest)

def maxWord : Nat := Nat.pow 2 64 - 1

/-- The largest exponent that is read digit by digit. -/
def maxExponent : Nat := Nat.pow 2 31 - 1

/-- The digits of a numeral: the whole part, the fraction if there is a point, and the signed
exponent if there is one. -/
structure Numeral where
  negative : Bool
  whole : List Nat
  fraction : Option (List Nat) := none
  exponent : Option Int := none
  deriving DecidableEq, Repr

/-- Digits gathered into a significand of 64 bits and a power of ten. -/
structure Gathered where
  significand : Nat
  power : Int
  deriving DecidableEq, Repr

/-- Gathers whole digits. Once a digit does not fit, it and all that follow only raise the power. -/
def gatherWhole (significand : Nat) : List Nat → Gathered
  | [] => ⟨significand, 0⟩
  | d :: rest =>
    if significand * 10 + d ≤ maxWord then gatherWhole (significand * 10 + d) rest
    else ⟨significand, rest.length + 1⟩

/-- Gathers digits after the point. Once a digit does not fit, it and all that follow are dropped. -/
def gatherFraction (g : Gathered) : List Nat → Gathered
  | [] => g
  | d :: rest =>
    if g.significand * 10 + d ≤ maxWord then
      gatherFraction ⟨g.significand * 10 + d, g.power - 1⟩ rest
    else g

namespace Numeral

def gather (n : Numeral) : Gathered :=
  let g := gatherFraction (gatherWhole 0 n.whole) (n.fraction.getD [])
  ⟨g.significand, g.power + n.exponent.getD 0⟩

/-- The numeral as a binary64, unless it is too large. -/
def toBinary64? (n : Numeral) : Option Binary64 :=
  let g := n.gather
  ((Binary64.ofNat g.significand).scale10 g.power).map fun x => if n.negative then x.neg else x

/-- The value of a numeral, unless it is too large. Without point or exponent it is a whole number
if it has 64 bits; zero with a sign is not whole. -/
def value? (n : Numeral) : Option Value :=
  let g := gatherWhole 0 n.whole
  if n.fraction.isNone ∧ n.exponent.isNone ∧ g.power = 0 then
    if ¬ n.negative then some (.int g.significand)
    else if 0 < g.significand ∧ g.significand ≤ Nat.pow 2 63 then some (.int (-g.significand))
    else some (.float (Binary64.ofNat g.significand).neg)
  else n.toBinary64?.map .float

end Numeral

/-- Reads exponent digits into `value` until it is too large. The result is the exponent, or
`none` with the text after the digit that was too much. -/
def exponentDigits (value : Nat) : List Char → Option Nat × List Char
  | [] => (some value, [])
  | c :: rest =>
    match digit? c with
    | some d =>
      if value * 10 + d ≤ maxExponent then exponentDigits (value * 10 + d) rest else (none, rest)
    | none => (some value, c :: rest)

/-- The digits of an exponent behind its sign. A positive exponent that is too large is a fault
unless the significand is zero; a negative one makes the numeral zero. -/
def exponentBody (n : Numeral) (negative : Bool) : List Char → Except Fault (Value × List Char)
  | [] => .error ⟨.eofInValue, [], 0⟩
  | c :: rest =>
    match digit? c with
    | none => .error (.here .invalidNumber (c :: rest))
    | some d =>
      match exponentDigits d rest with
      | (some e, after) =>
        match { n with exponent := some (if negative then -(e : Int) else e) }.value? with
        | some v => .ok (v, after)
        | none => .error ⟨.numberOutOfRange, after, 0⟩
      | (none, after) =>
        if n.gather.significand ≠ 0 ∧ ¬ negative then .error ⟨.numberOutOfRange, after, 0⟩
        else
          let zero : Binary64 := ⟨0⟩
          .ok (.float (if n.negative then zero.neg else zero), (digits after).2)

/-- The rest of a numeral after its digits: an exponent, or nothing. -/
def numeralExponent (n : Numeral) : List Char → Except Fault (Value × List Char)
  | c :: rest =>
    if c = 'e' ∨ c = 'E' then
      match rest with
      | '+' :: body => exponentBody n false body
      | '-' :: body => exponentBody n true body
      | body => exponentBody n false body
    else
      match n.value? with
      | some v => .ok (v, c :: rest)
      | none => .error ⟨.numberOutOfRange, c :: rest, 0⟩
  | [] =>
    match n.value? with
    | some v => .ok (v, [])
    | none => .error ⟨.numberOutOfRange, [], 0⟩

/-- The rest of a numeral after its whole part: a fraction, an exponent, both or nothing. -/
def numeralTail (n : Numeral) : List Char → Except Fault (Value × List Char)
  | '.' :: rest =>
    match digits rest with
    | ([], []) => .error ⟨.eofInValue, [], 0⟩
    | ([], after) => .error (.here .invalidNumber after)
    | (ds, after) => numeralExponent { n with fraction := some ds } after
  | rest => numeralExponent n rest

/-- Reads a numeral whose sign has been read. A whole part that starts with zero is zero alone. -/
def numeral (negative : Bool) : List Char → Except Fault (Value × List Char)
  | [] => .error ⟨.eofInValue, [], 0⟩
  | c :: rest =>
    match digit? c with
    | none => .error (.here .invalidNumber (c :: rest))
    | some 0 =>
      match digits rest with
      | ([], after) => numeralTail { negative, whole := [0] } after
      | (_ :: _, _) => .error (.here .invalidNumber rest)
    | some d =>
      let r := digits rest
      numeralTail { negative, whole := d :: r.1 } r.2

end GroovyWorkspace.Json
