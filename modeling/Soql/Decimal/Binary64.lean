/-!
# Binary floating-point numbers

Nonnegative finite numbers of the IEEE 754 format binary64, as `mantissa * 2 ^ exponent`, with exact
rounding: `round` takes the nearest number, and of two the one with the even mantissa.
-/

namespace Soql.Decimal

structure Binary64 where
  mantissa : Nat
  exponent : Int
deriving DecidableEq, Repr

/-- The nearest integer of a quotient, and of two the even one. -/
def roundDiv (num den : Nat) : Nat :=
  let q := num / den
  let r := num % den
  if 2 * r < den then q
  else if den < 2 * r then q + 1
  else if q % 2 = 0 then q else q + 1

/-- `num / den * 2 ^ e` as a quotient of natural numbers. -/
def scale (num den : Nat) (e : Int) : Nat × Nat := (num * Nat.pow 2 e.toNat, den * Nat.pow 2 (-e).toNat)

namespace Binary64

def zero : Binary64 := ⟨0, -1074⟩

def isZero (x : Binary64) : Bool := x.mantissa = 0

def quotient (x : Binary64) : Nat × Nat := scale x.mantissa 1 x.exponent

/-- The number nearest to a quotient; absent when that is beyond the greatest one. -/
def round (num den : Nat) : Option Binary64 :=
  if num = 0 then some zero
  else
    let low : Int := max ((Nat.log2 num : Int) - Nat.log2 den - 53) (-1074)
    let fits (e : Int) : Bool := let (n, d) := scale num den (-e); decide (n < d * Nat.pow 2 53)
    let e := if fits low then low else low + 1
    let (n, d) := scale num den (-e)
    let m := roundDiv n d
    let (m, e) := if m = Nat.pow 2 53 then (Nat.pow 2 52, e + 1) else (m, e)
    if e ≤ 971 then some ⟨m, e⟩ else none

def ofNat (n : Nat) : Option Binary64 := round n 1

def mul (x y : Binary64) : Option Binary64 :=
  let (n, d) := x.quotient
  let (n', d') := y.quotient
  round (n * n') (d * d')

def div (x y : Binary64) : Option Binary64 :=
  let (n, d) := x.quotient
  let (n', d') := y.quotient
  round (n * d') (d * n')

end Binary64
end Soql.Decimal
