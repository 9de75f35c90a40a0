/-
CriteriaSql/Wire/Numeric.lean

The binary form of decimal numbers: the number of groups, the weight of the
first, the sign, the number of places that are shown, and the groups, each four
decimal digits in a 16-bit word.
-/
import CriteriaSql.Number.FixedDecimal
import CriteriaSql.Number.Power
import CriteriaSql.Wire.BigEndian

namespace CriteriaSql.Wire.Numeric

open BigEndian

/-! ### Writing -/

/-- The groups of a number, the most significant first; `fuel` bounds their
number. -/
def groupsFrom : (fuel : Nat) → Nat → List Nat
  | 0, _ => []
  | fuel + 1, n => if n = 0 then [] else groupsFrom fuel (n / 10000) ++ [n % 10000]

/-- The groups of a number, the most significant first. -/
def groupsOf (n : Nat) : List Nat :=
  groupsFrom n.log2.succ n

/-- Drop up to `n` groups of zeros at the end. -/
def dropZeros (n : Nat) (groups : List Nat) : List Nat :=
  let zeros := (groups.reverse.takeWhile (· = 0)).length
  groups.take (groups.length - min n zeros)

/-- The word of a sign. -/
def signWord (negative : Bool) : Nat :=
  if negative then 0x4000 else 0

/-- The binary form of a number.  Zero has no groups and no sign.  Groups of
zeros at the end of a fraction are left out when there is a whole part. -/
def encode (d : FixedDecimal) : List UInt8 :=
  if d.mantissa = 0 then List.replicate 8 0
  else
    let fractionGroups := (d.places + 3) / 4
    let groups := groupsOf (d.mantissa * pow10 (4 * fractionGroups - d.places))
    let weight := (groups.length : Int) - fractionGroups - 1
    let groups := if 0 ≤ weight then dropZeros fractionGroups groups else groups
    write 2 groups.length ++ writeInt 2 weight ++ write 2 (signWord d.negative)
      ++ write 2 d.places ++ groups.flatMap (write 2)

/-! ### Reading -/

/-- Take `n` words from the front. -/
def takeWords : (n : Nat) → List UInt8 → Option (List Nat × List UInt8)
  | 0, bytes => some ([], bytes)
  | n + 1, high :: low :: bytes => do
    let (words, rest) ← takeWords n bytes
    return (read [high, low] :: words, rest)
  | _ + 1, _ => none

/-- The whole number of groups, as long as it is within the bound. -/
def wholeOf (n : Nat) : List Nat → Option Nat
  | [] => some n
  | group :: groups =>
    let next := n * 10000 + group
    if next < FixedDecimal.bound then wholeOf next groups else none

/-- A whole number with `n` groups of zeros behind it.  Ten of them are too many
for any number, zero too: their power of ten has no room in 128 bits. -/
def padWhole (whole n : Nat) : Option Nat :=
  if 10 ≤ n then none else wholeOf whole (List.replicate n 0)

/-- What a group of the fraction adds, the number `group / 10 ^ power`.  Of the
groups beyond the last place the first one rounds, half up, and the others add
nothing. -/
def fractionTerm (power group : Nat) : FixedDecimal :=
  if power ≤ FixedDecimal.maxPlaces then ⟨false, group, power⟩
  else if power = FixedDecimal.maxPlaces + 4 ∧ 5000 ≤ group then ⟨false, 1, FixedDecimal.maxPlaces⟩
  else ⟨false, 0, 0⟩

/-- Add the groups of a fraction one by one, the first of which stands for
`group / 10 ^ power`. -/
def addFraction (d : FixedDecimal) (power : Nat) : List Nat → Option FixedDecimal
  | [] => some d
  | group :: groups => do
    let next ← d.sum (fractionTerm power group)
    addFraction next (power + 4) groups

/-- The number of groups whose first has the given weight. -/
def ofGroups (weight : Int) (groups : List Nat) : Option FixedDecimal := do
  let wholeCount := (weight + 1).toNat
  let whole ← wholeOf 0 (groups.take wholeCount)
  let whole ← padWhole whole (wholeCount - groups.length)
  addFraction ⟨false, whole, 0⟩ (4 * max 1 (-weight)).toNat (groups.drop wholeCount)

/-- The least sign word of a value that is no number. -/
def leastSpecial : Nat := 0xC000

/-- The number of a binary form, rounded half up to the places that are
shown. -/
def decode? (bytes : List UInt8) : Option FixedDecimal := do
  let (header, bytes) ← takeWords 4 bytes
  match header with
  | [count, weight, sign, shown] =>
    let (groups, _) ← takeWords count bytes
    let number ← ofGroups (readInt (write 2 weight)) groups
    if sign < leastSpecial then
      return { number.withPlaces (min shown FixedDecimal.maxPlaces) with
               negative := sign = signWord true }
    else none
  | _ => none

end CriteriaSql.Wire.Numeric
