/-
CriteriaSql/Number/Double.lean

Double-precision numbers as 64-bit words: conversion from ratios, integers,
decimals and single precision, products and quotients rounded once, and the
order of the values.

All arithmetic is on natural numbers, so every function can be evaluated and
reasoned about without a floating-point unit.
-/
import CriteriaSql.Number.BinaryFormat
import CriteriaSql.Number.Power

namespace CriteriaSql.Number

/-- A double-precision number, as its 64-bit word. -/
structure Double where
  bits : UInt64
deriving DecidableEq, Repr

namespace Double

/-! ### Parts of the word -/

/-- The sign bit. -/
def isNegative (d : Double) : Bool :=
  pow2 63 ≤ d.bits.toNat

/-- The word without its sign bit. -/
def magnitude (d : Double) : Nat :=
  d.bits.toNat % pow2 63

/-- Neither infinite nor a non-number. -/
def isFinite (d : Double) : Bool :=
  d.magnitude < binary64.infinity

/-- Not a number. -/
def isNaN (d : Double) : Bool :=
  binary64.infinity < d.magnitude

/-- The value of either zero. -/
def isZero (d : Double) : Bool :=
  d.magnitude == 0

/-- The number with the given sign and magnitude. -/
def ofMagnitude (negative : Bool) (magnitude : Nat) : Double :=
  ⟨UInt64.ofNat (magnitude + if negative then pow2 63 else 0)⟩

/-- The number of the other sign. -/
def neg (d : Double) : Double :=
  ofMagnitude (!d.isNegative) d.magnitude

/-! ### Conversions -/

/-- The double nearest to a ratio of the given sign. -/
def ofRatio (negative : Bool) (num den : Nat) : Double :=
  ofMagnitude negative (binary64.round num den)

/-- The double nearest to a natural number. -/
def ofNat (n : Nat) : Double :=
  ofRatio false n 1

/-- The double nearest to an integer. -/
def ofInt (n : Int) : Double :=
  ofRatio (n < 0) n.natAbs 1

/-- The magnitude of a finite number as a ratio. -/
def ratio (d : Double) : Nat × Nat :=
  let (m, q) := binary64.value d.magnitude
  (m * pow2 q.toNat, pow2 (-q).toNat)

/-- Infinity of the given sign. -/
def infinite (negative : Bool) : Double :=
  ofMagnitude negative binary64.infinity

/-- The quiet non-number of the given sign. -/
def nan (negative : Bool) : Double :=
  ofMagnitude negative (binary64.infinity + pow2 51)

/-- The double nearest to `digits * 10 ^ exponent`.  Exponents that put the
value beyond every finite double, or below half the least positive one, are
answered without forming the power. -/
def ofDecimal (negative : Bool) (digits : Nat) (exponent : Int) : Double :=
  if digits = 0 then ofMagnitude negative 0
  else
    let scale := exponent + (Nat.toDigits 10 digits).length
    if 310 < scale then infinite negative
    else if scale < -330 then ofMagnitude negative 0
    else ofRatio negative (digits * pow10 exponent.toNat) (pow10 (-exponent).toNat)

/-- The word of the nearest single-precision number. -/
def toSingle (d : Double) : Nat :=
  let sign := if d.isNegative then pow2 31 else 0
  if d.isNaN then
    sign + binary32.infinity + (d.magnitude - binary64.infinity) / pow2 29 % pow2 22 + pow2 22
  else if d.isFinite then
    let (num, den) := d.ratio
    sign + binary32.round num den
  else sign + binary32.infinity

/-- The double with the value of a single-precision word. -/
def ofSingle (word : Nat) : Double :=
  let negative : Bool := pow2 31 ≤ word
  let magnitude := word % pow2 31
  if binary32.infinity < magnitude then nan negative
  else if magnitude = binary32.infinity then infinite negative
  else
    let (m, q) := binary32.value magnitude
    ofRatio negative (m * pow2 q.toNat) (pow2 (-q).toNat)

/-! ### Products and quotients -/

/-- The product of two finite numbers, rounded once. -/
def mul (a b : Double) : Double :=
  let (n₁, d₁) := a.ratio
  let (n₂, d₂) := b.ratio
  ofRatio (a.isNegative != b.isNegative) (n₁ * n₂) (d₁ * d₂)

/-- The quotient of two finite numbers, rounded once; the divisor is not zero. -/
def div (a b : Double) : Double :=
  let (n₁, d₁) := a.ratio
  let (n₂, d₂) := b.ratio
  ofRatio (a.isNegative != b.isNegative) (n₁ * d₂) (d₁ * n₂)

/-! ### Order -/

/-- An integer that orders the doubles that are numbers as their values are
ordered; both zeros have the key 0. -/
def orderKey (d : Double) : Int :=
  if d.isNegative then -(d.magnitude : Int) else d.magnitude

/-- The order of the values. -/
def order (a b : Double) : Ordering :=
  compare a.orderKey b.orderKey

end Double

end CriteriaSql.Number
