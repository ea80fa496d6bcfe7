/-!
# Binary64 numbers

Floating-point numbers as their 64 bits, with the two roundings that readers of decimal numerals
need: to the nearest number, with ties going to the one whose last bit is zero. All arithmetic is
exact until it is rounded once.
-/

namespace GroovyWorkspace

/-- A binary64 number, by its bits: sign, eleven bits of exponent, fifty-two of fraction. -/
structure Binary64 where
  bits : UInt64
  deriving DecidableEq, Repr, Inhabited

namespace Binary64

/-- The bits of positive infinity, as a number. -/
def infinityBits : Nat := 0x7FF * Nat.pow 2 52

def infinity (negative : Bool) : Binary64 :=
  ⟨(infinityBits + if negative then Nat.pow 2 63 else 0).toUInt64⟩

def nan : Binary64 := ⟨0x7FF8000000000000⟩

def exponentField (x : Binary64) : Nat := x.bits.toNat / Nat.pow 2 52 % Nat.pow 2 11

def fractionField (x : Binary64) : Nat := x.bits.toNat % Nat.pow 2 52

/-- Whether the number is neither infinite nor a NaN. -/
def isFinite (x : Binary64) : Bool := x.exponentField != 0x7FF

def neg (x : Binary64) : Binary64 :=
  ⟨((x.bits.toNat + Nat.pow 2 63) % Nat.pow 2 64).toUInt64⟩

/-- The quotient rounded to the nearest whole number, a half to the even neighbour. -/
def roundDiv (num den : Nat) : Nat :=
  let q := num / den
  let r := num % den
  if 2 * r < den then q else if den < 2 * r then q + 1 else q + q % 2

/-- The bits of the binary64 nearest to `num / den`, where `den` is not zero; those of infinity if
the quotient is too large. -/
def ratioBits (num den : Nat) : Nat :=
  if num = 0 then 0
  else
    -- the power of two at or just above the quotient, from the lengths of its two parts
    let guess : Int := (num.log2 : Int) - (den.log2 : Int)
    let fits : Bool :=
      if 0 ≤ guess then den * Nat.pow 2 guess.toNat ≤ num else den ≤ num * Nat.pow 2 (-guess).toNat
    let top : Int := max (if fits then guess else guess - 1) (-1022)
    let shift : Int := 52 - top
    let significand :=
      if 0 ≤ shift then roundDiv (num * Nat.pow 2 shift.toNat) den
      else roundDiv num (den * Nat.pow 2 (-shift).toNat)
    min (((top + 1022).toNat) * Nat.pow 2 52 + significand) infinityBits

/-- The binary64 nearest to `num / den`. -/
def ofRatio (num den : Nat) : Binary64 := ⟨(ratioBits num den).toUInt64⟩

def ofNat (n : Nat) : Binary64 := ofRatio n 1

/-- The numerator and denominator of the magnitude of a finite number. -/
def toRatio (x : Binary64) : Nat × Nat :=
  let e := x.exponentField
  let m := if e = 0 then x.fractionField else Nat.pow 2 52 + x.fractionField
  let power : Int := if e = 0 then -1074 else (e : Int) - 1075
  if 0 ≤ power then (m * Nat.pow 2 power.toNat, 1) else (m, Nat.pow 2 (-power).toNat)

/-- The product of two finite numbers that are not negative. -/
def mul (x y : Binary64) : Binary64 :=
  ofRatio (x.toRatio.1 * y.toRatio.1) (x.toRatio.2 * y.toRatio.2)

/-- The quotient of two finite numbers that are not negative, the second not zero. -/
def div (x y : Binary64) : Binary64 :=
  ofRatio (x.toRatio.1 * y.toRatio.2) (x.toRatio.2 * y.toRatio.1)

/-- The binary64 nearest to `digits * 10 ^ exponent`. Exponents beyond every finite number are
settled without computing the power. -/
def ofDecimal (digits : Nat) (exponent : Int) : Binary64 :=
  if digits = 0 then ⟨0⟩
  else
    -- `10 ^ (magnitude - 1) ≤ digits * 10 ^ exponent < 10 ^ magnitude`
    let magnitude : Int := ((Nat.toDigits 10 digits).length : Int) + exponent
    if 400 < magnitude then infinity false
    else if magnitude < -400 then ⟨0⟩
    else if 0 ≤ exponent then ofRatio (digits * Nat.pow 10 exponent.toNat) 1
    else ofRatio digits (Nat.pow 10 (-exponent).toNat)

/-- Scales `x` by `10 ^ exponent` in steps of at most `10 ^ 308`, rounding after each; `none` if the
result is too large. `steps` bounds the number of steps. -/
def scaleUpTo : Nat → Binary64 → Int → Option Binary64
  | 0, x, _ => some x
  | steps + 1, x, exponent =>
    if exponent.natAbs ≤ 308 then
      if 0 ≤ exponent then
        let y := x.mul (ofNat (Nat.pow 10 exponent.toNat))
        if y.isFinite then some y else none
      else some (x.div (ofNat (Nat.pow 10 (-exponent).toNat)))
    else if x.bits = 0 then some x
    else if 0 ≤ exponent then none
    else scaleUpTo steps (x.div (ofNat (Nat.pow 10 308))) (exponent + 308)

/-- Scales `x` by a power of ten, rounding at each step; `none` if the result is too large. -/
def scale10 (x : Binary64) (exponent : Int) : Option Binary64 :=
  scaleUpTo (exponent.natAbs / 308 + 1) x exponent

end Binary64
end GroovyWorkspace
