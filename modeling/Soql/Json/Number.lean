import Soql.Json.Reader

/-!
# Numbers of a JSON text

A numeral is an integer when it has neither fraction nor exponent, is no negative zero and fits the
64-bit integers; every other one is a binary floating-point number. That number is computed in two
roundings: the digits that fit 64 bits are rounded first, then scaled by a rounded power of ten.
-/

namespace Soql.Json

open Decimal (Binary64)

/-- The parts of a numeral as they are written. -/
structure Numeral where
  negative : Bool
  whole : List Char
  fraction : List Char
  exponent : Option Int
deriving DecidableEq, Repr

inductive Number where
  | integer (n : Int)
  | float (negative : Bool) (x : Binary64)
deriving DecidableEq, Repr

def isDigit (c : Char) : Bool := decide ('0' ≤ c) && decide (c ≤ '9')

def digitValue (c : Char) : Nat := c.toNat - '0'.toNat

def digitsValue (ds : List Char) : Nat := ds.foldl (fun n c => n * 10 + digitValue c) 0

namespace Reader

/-- The digits before the point: a zero stands alone. -/
def wholePart (atEnd : Fault) : Reader (List Char) := do
  match ← next with
  | none => fail atEnd
  | some c =>
    if c = '0' then
      if (← peek).any isDigit then fail .invalidNumber else pure [c]
    else if isDigit c then (c :: ·) <$> takeWhile isDigit
    else fail .invalidNumber

def fractionPart (atEnd : Fault) : Reader (List Char) := do
  if (← peek) = some '.' then
    discard next
    let ds ← takeWhile isDigit
    if ds.isEmpty then
      fail (if (← peek).isNone then atEnd else .invalidNumber)
    else pure ds
  else pure []

/-- The sign of an exponent; no sign is a plus. -/
def exponentSign : Reader Bool := do
  match ← peek with
  | some '+' => discard next; pure false
  | some '-' => discard next; pure true
  | _ => pure false

def exponentPart (atEnd : Fault) : Reader (Option Int) := do
  if (← peek).any (fun c => c = 'e' || c = 'E') then
    discard next
    let negative ← exponentSign
    match ← next with
    | none => fail atEnd
    | some c =>
      if isDigit c then
        let n : Int := digitsValue (c :: (← takeWhile isDigit))
        pure (some (if negative then -n else n))
      else fail .invalidNumber
  else pure none

/-- A numeral; `atEnd` is the fault of a text that ends inside it. -/
def numeral (atEnd : Fault) : Reader Numeral := do
  let negative := (← peek) = some '-'
  if negative then discard next
  let whole ← wholePart atEnd
  let fraction ← fractionPart atEnd
  let exponent ← exponentPart atEnd
  pure ⟨negative, whole, fraction, exponent⟩

end Reader

namespace Numeral

/-- The leading digits that fit 64 bits, and how many digits of the whole part follow them. -/
def leading (n : Nat) : List Char → Nat × Nat
  | [] => (n, 0)
  | c :: cs =>
    if n * 10 + digitValue c < UInt64.size then leading (n * 10 + digitValue c) cs
    else (n, cs.length + 1)

/-- Adds the digits of the fraction that still fit, and counts them. -/
def extend (n : Nat) : List Char → Nat × Nat
  | [] => (n, 0)
  | c :: cs =>
    if n * 10 + digitValue c < UInt64.size then
      let (m, k) := extend (n * 10 + digitValue c) cs
      (m, k + 1)
    else (n, 0)

/-- A number times a power of ten. Powers up to 308 have numbers of their own; below, the number is
divided by the greatest of them again and again. -/
def scaled (x : Binary64) (e : Int) : Option Binary64 :=
  if h : e.natAbs ≤ 308 then do
    let power ← Binary64.ofNat (Nat.pow 10 e.natAbs)
    if 0 ≤ e then x.mul power else x.div power
  else if x.isZero then some x
  else if 0 ≤ e then none
  else do
    let power ← Binary64.ofNat (Nat.pow 10 308)
    scaled (← x.div power) (e + 308)
termination_by e.natAbs

def float (n : Numeral) : Except Fault Number :=
  let (whole, dropped) := leading 0 n.whole
  let (significand, taken) := extend whole n.fraction
  let e := (dropped : Int) - taken + n.exponent.getD 0
  match (Binary64.ofNat significand).bind (scaled · e) with
  | some x => .ok (.float n.negative x)
  | none => .error .numberOutOfRange

def number (n : Numeral) : Except Fault Number :=
  if n.fraction = [] ∧ n.exponent = none then
    let v := digitsValue n.whole
    if n.negative then
      if v = 0 ∨ Nat.pow 2 63 < v then n.float else .ok (.integer (-v))
    else if v < UInt64.size then .ok (.integer v)
    else n.float
  else n.float

end Numeral

namespace Reader

def number : Reader Number := do
  match (← numeral .eofValue).number with
  | .ok n => pure n
  | .error f => fail f

end Reader
end Soql.Json
