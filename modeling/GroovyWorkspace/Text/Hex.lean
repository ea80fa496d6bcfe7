/-!
# Hexadecimal digits

The digits of base sixteen in upper and lower case, and the numbers they make.
-/

namespace GroovyWorkspace.Text

def hexDigit? (c : Char) : Option Nat :=
  if '0' ≤ c ∧ c ≤ '9' then some (c.toNat - 48)
  else if 'a' ≤ c ∧ c ≤ 'f' then some (c.toNat - 87)
  else if 'A' ≤ c ∧ c ≤ 'F' then some (c.toNat - 55)
  else none

/-- The number that hexadecimal digits stand for when `n` stands before them. -/
def hexNumber : List Char → Nat → Option Nat
  | [], n => some n
  | c :: cs, n => (hexDigit? c).bind fun d => hexNumber cs (n * 16 + d)

end GroovyWorkspace.Text
