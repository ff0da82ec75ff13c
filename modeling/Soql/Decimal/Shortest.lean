import Soql.Decimal.Binary64

/-!
# Shortest decimals

The fewest decimal digits that read back as a given number, and of those the nearest to it.
-/

namespace Soql.Decimal

/-- `digits * 10 ^ exponent`. -/
structure Scaled where
  digits : Nat
  exponent : Int
deriving DecidableEq, Repr

def digitCount (n : Nat) : Nat := (Nat.toDigits 10 n).length

/-- The exponent of the greatest power of ten that is not above a quotient. -/
def magnitude (num den : Nat) : Int :=
  if den ≤ num then digitCount (num / den) - 1
  else -(digitCount ((den + num - 1) / num - 1) : Int)

/-- Whether `n / d` lies among the reals that round to the number. -/
def Binary64.covers (x : Binary64) (n d : Nat) : Bool :=
  -- everything in quarters of the last place of the number
  let below := if x.mantissa = Nat.pow 2 52 ∧ -1074 < x.exponent then 1 else 2
  let (p, q) := scale (4 * n) d (-x.exponent)
  let low := (4 * x.mantissa - below) * q
  let high := (4 * x.mantissa + 2) * q
  if x.mantissa % 2 = 0 then decide (low ≤ p) && decide (p ≤ high)
  else decide (low < p) && decide (p < high)

/-- The decimal of the given last place that is nearest to the number, if one rounds to it; of two
equally near the one with the even last digit. -/
def Binary64.onGrid (x : Binary64) (place : Int) : Option Scaled :=
  let (n, d) := x.quotient
  let (n, d) := (n * Nat.pow 10 (-place).toNat, d * Nat.pow 10 place.toNat)
  let fits (k : Nat) : Bool := x.covers (k * Nat.pow 10 place.toNat) (Nat.pow 10 (-place).toNat)
  let k := n / d
  let near := if roundDiv n d = k then [k, k + 1] else [k + 1, k]
  (near.find? fits).map (⟨·, place⟩)

/-- The shortest decimal of a number; seventeen digits are always enough. -/
def Binary64.shortest (x : Binary64) : Scaled :=
  if x.isZero then ⟨0, 0⟩
  else
    let (n, d) := x.quotient
    let top := magnitude n d
    ((List.range 17).findSome? fun (k : Nat) => x.onGrid (top - k)).getD ⟨0, 0⟩

/-- The digits without trailing zeros, and the exponent of the first of them. -/
def Scaled.scientific (x : Scaled) : List Char × Int :=
  let ds := Nat.toDigits 10 x.digits
  let kept := (ds.reverse.dropWhile (· = '0')).reverse
  (if kept.isEmpty then ['0'] else kept, x.exponent + ds.length - 1)

structure Style where
  /-- The least and the greatest exponent of a first digit that is written in place. -/
  least : Int
  greatest : Int
  /-- Whether a whole number in place ends in `.0`. -/
  pointed : Bool
  /-- How many digits an exponent has at least. -/
  exponentWidth : Nat

/-- Digits with the point in its place. -/
def inPlace (pointed : Bool) (ds : List Char) (e : Int) : List Char :=
  if e < 0 then '0' :: '.' :: (List.replicate (-e - 1).toNat '0' ++ ds)
  else
    let k := e.toNat + 1
    if ds.length ≤ k then
      ds ++ List.replicate (k - ds.length) '0' ++ if pointed then ['.', '0'] else []
    else ds.take k ++ '.' :: ds.drop k

/-- One digit, the point, the others, and the exponent with its sign. -/
def withExponent (width : Nat) (ds : List Char) (e : Int) : List Char :=
  let exponent := Nat.toDigits 10 e.natAbs
  ds.take 1 ++ (if ds.length ≤ 1 then [] else '.' :: ds.drop 1) ++
    'e' :: (if e < 0 then '-' else '+') ::
      (List.replicate (width - exponent.length) '0' ++ exponent)

def Binary64.text (x : Binary64) (style : Style) : String :=
  let (ds, e) := x.shortest.scientific
  String.ofList
    (if style.least ≤ e ∧ e ≤ style.greatest then inPlace style.pointed ds e
    else withExponent style.exponentWidth ds e)

end Soql.Decimal
