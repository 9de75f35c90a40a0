/-
CriteriaSql/Json/NumberLiteral.lean

Number literals of JSON: their grammar and the number each denotes.

A literal without fraction and exponent denotes an integer when 64 bits hold
it; minus zero and all other literals denote doubles.  A double is found in two
steps: the leading digits that fit an unsigned 64-bit word form a significand,
which is rounded to a double, and that double is multiplied or divided by the
power of ten that is left, with one more rounding.  A literal too large for a
double denotes nothing.
-/
import CriteriaSql.Json.Basic
import CriteriaSql.Number.Power
import CriteriaSql.Text.Digits

namespace CriteriaSql

open Number (Double)

/-- The parts of a number literal.  `fraction` is empty when there is none; the
exponent has a sign (true for minus) and digits. -/
structure NumberLiteral where
  negative : Bool
  whole : List Char
  fraction : List Char
  exponent : Option (Bool × List Char)

namespace NumberLiteral

/-! ### Grammar -/

/-- The whole part: a zero, or digits that do not begin with a zero. -/
def scanWhole : List Char → Option (List Char × List Char)
  | '0' :: cs =>
    match cs with
    | c :: _ => if isDigit c then none else some (['0'], cs)
    | [] => some (['0'], [])
  | cs =>
    let (ds, rest) := spanDigits cs
    if ds.isEmpty then none else some (ds, rest)

/-- The fraction: nothing, or a point with digits behind it. -/
def scanFraction : List Char → Option (List Char × List Char)
  | '.' :: cs =>
    let (ds, rest) := spanDigits cs
    if ds.isEmpty then none else some (ds, rest)
  | cs => some ([], cs)

/-- The exponent: nothing, or a letter `e`, a sign or nothing, and digits. -/
def scanExponent : List Char → Option (Option (Bool × List Char) × List Char)
  | [] => some (none, [])
  | c :: cs =>
    if c = 'e' || c = 'E' then
      let (negative, cs) := spanSign cs
      let (ds, rest) := spanDigits cs
      if ds.isEmpty then none else some (some (negative, ds), rest)
    else some (none, c :: cs)

/-- Read a literal from the front of a text. -/
def scan (cs : List Char) : Option (NumberLiteral × List Char) := do
  let (negative, cs) := match cs with
    | '-' :: cs => (true, cs)
    | cs => (false, cs)
  let (whole, cs) ← scanWhole cs
  let (fraction, cs) ← scanFraction cs
  let (exponent, cs) ← scanExponent cs
  return (⟨negative, whole, fraction, exponent⟩, cs)

/-! ### Value -/

/-- Extend a significand by digits as long as an unsigned 64-bit word holds it;
the digits from the first that does not fit are left over. -/
def extend (significand : Nat) : List Char → Nat × List Char
  | [] => (significand, [])
  | c :: cs =>
    let next := significand * 10 + digitValue c
    if next < pow2 64 then extend next cs else (significand, c :: cs)

/-- A power of ten as a double; the largest one needed is `1e308`. -/
def powerOfTen (n : Nat) : Double :=
  Double.ofNat (pow10 n)

/-- Divide by `10 ^ n`, in steps of `1e308` while the exponent is beyond it. -/
def scaleDown (d : Double) (n : Nat) : Double :=
  if n ≤ 308 then d.div (powerOfTen n)
  else if d.isZero then d
  else scaleDown (d.div (powerOfTen 308)) (n - 308)
termination_by n

/-- Multiply by a power of ten, unless the product is too large. -/
def scaleUp (d : Double) (n : Nat) : Option Double :=
  if n ≤ 308 then
    let product := d.mul (powerOfTen n)
    if product.isFinite then some product else none
  else if d.isZero then some d
  else none

/-- The double `significand * 10 ^ exponent`. -/
def scaled (significand : Nat) (exponent : Int) : Option Double :=
  let d := Double.ofNat significand
  if 0 ≤ exponent then scaleUp d exponent.toNat else some (scaleDown d (-exponent).toNat)

/-- The double of a significand, the power of ten that belongs to it and a
written exponent.  An exponent beyond 31 bits is never applied. -/
def doubleValue (significand : Nat) (power : Int) : Option (Bool × List Char) → Option Double
  | none => scaled significand power
  | some (negative, ds) =>
    let e := natOfDigits ds
    if pow2 31 ≤ e then
      if significand ≠ 0 && !negative then none else some (Double.ofNat 0)
    else scaled significand (if negative then power - e else power + e)

/-- The number a literal denotes. -/
def value (l : NumberLiteral) : Option JsonNumber :=
  let (significand, dropped) := extend 0 l.whole
  let signed (d : Double) : JsonNumber := .double (if l.negative then d.neg else d)
  if l.fraction.isEmpty && l.exponent.isNone && dropped.isEmpty then
    if !l.negative then some (.int significand)
    else if significand ≠ 0 && significand ≤ pow2 63 then some (.int (-significand))
    else some (signed (Double.ofNat significand))
  else
    let (significand, beyond) := extend significand l.fraction
    let power := (dropped.length : Int) + beyond.length - l.fraction.length
    (doubleValue significand power l.exponent).map signed

end NumberLiteral

/-- Read a number from the front of a text. -/
def JsonNumber.read (cs : List Char) : Option (JsonNumber × List Char) := do
  let (l, rest) ← NumberLiteral.scan cs
  let n ← l.value
  return (n, rest)

/-- The number that the whole text writes. -/
def JsonNumber.parse? (cs : List Char) : Option JsonNumber :=
  match JsonNumber.read cs with
  | some (n, []) => some n
  | _ => none

end CriteriaSql
