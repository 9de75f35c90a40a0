/-
CriteriaSql/Number/BinaryFormat.lean

Binary floating-point formats with a sign, an exponent field and a fraction
field.  A magnitude is a word without its sign bit.  Words of finite magnitudes
are in the order of their values, so rounding works on words directly.

* `BinaryFormat.value` reads a finite word as `m * 2 ^ q`;
* `BinaryFormat.round` gives the word nearest to a ratio, ties to the even
  word, and the infinite word past the largest finite one.
-/
import CriteriaSql.Number.Power
import CriteriaSql.Number.Rounding

namespace CriteriaSql.Number

/-- The widths of the fraction and exponent fields. -/
structure BinaryFormat where
  fractionBits : Nat
  exponentBits : Nat

/-- Double precision. -/
def binary64 : BinaryFormat := ⟨52, 11⟩

/-- Single precision. -/
def binary32 : BinaryFormat := ⟨23, 8⟩

namespace BinaryFormat

/-- The power of two of the least positive value. -/
def minPower (f : BinaryFormat) : Int :=
  2 - (pow2 (f.exponentBits - 1) : Int) - f.fractionBits

/-- The word of infinity; the words above it are not numbers. -/
def infinity (f : BinaryFormat) : Nat :=
  (pow2 f.exponentBits - 1) * pow2 f.fractionBits

/-- The value `m * 2 ^ q` of a finite word, as the pair `(m, q)`. -/
def value (f : BinaryFormat) (word : Nat) : Nat × Int :=
  let field := word / pow2 f.fractionBits
  let fraction := word % pow2 f.fractionBits
  if field = 0 then (fraction, f.minPower)
  else (pow2 f.fractionBits + fraction, f.minPower + field - 1)

/-- The largest `t` with `2 ^ t ≤ num / den`, for positive `num` and `den`. -/
def floorLog2 (num den : Nat) : Int :=
  let t : Int := (num.log2 : Int) - den.log2
  if den * pow2 t.toNat ≤ num * pow2 (-t).toNat then t else t - 1

/-- The word nearest to `num / den`, ties to the even word. -/
def round (f : BinaryFormat) (num den : Nat) : Nat :=
  if num = 0 then 0
  else
    let q := max (floorLog2 num den - f.fractionBits) f.minPower
    let m := divToEven (num * pow2 (-q).toNat) (den * pow2 q.toNat)
    min (m + (q - f.minPower).toNat * pow2 f.fractionBits) f.infinity

theorem round_le_infinity (f : BinaryFormat) (num den : Nat) :
    f.round num den ≤ f.infinity := by
  unfold round
  split
  · exact Nat.zero_le _
  · exact Nat.min_le_right _ _

end BinaryFormat

end CriteriaSql.Number
