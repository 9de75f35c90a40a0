/-
CriteriaSql/Number/Shortest.lean

The fewest decimal digits that read back as a given double.

The reals that round to a double form an interval around its value, with its
ends included when the word is even.  For one, two, … seventeen digits the two
neighbours of the value on that decimal grid are tested; the first grid with a
neighbour inside the interval wins, of two neighbours inside the nearer one,
and of two equally near ones the even one.
-/
import CriteriaSql.Number.Double
import CriteriaSql.Number.Power

namespace CriteriaSql.Number

/-- A decimal number `digits * 10 ^ exponent`. -/
structure Decimal where
  digits : Nat
  exponent : Int
deriving DecidableEq, Repr

namespace Decimal

/-- How many decimal digits a number has. -/
def digitCount (n : Nat) : Nat :=
  (Nat.toDigits 10 n).length

/-- Drop the zeros at the end of the digits. -/
def trimZeros (d : Decimal) : Decimal :=
  if h : d.digits ≠ 0 ∧ d.digits % 10 = 0 then
    trimZeros ⟨d.digits / 10, d.exponent + 1⟩
  else d
termination_by d.digits
decreasing_by exact Nat.div_lt_self (Nat.pos_of_ne_zero h.1) (by decide)

/-- The exponent of the first digit of `m * 2 ^ q`, for positive `m`: the
largest `t` with `10 ^ t ≤ m * 2 ^ q`.  No double is below `10 ^ (-350)`. -/
def leadingExponent (m : Nat) (q : Int) : Int :=
  (digitCount (m * pow2 q.toNat * pow10 350 / pow2 (-q).toNat) : Int) - 351

/-- The neighbour of `m * 2 ^ q` on the grid of multiples of `10 ^ k` that rounds
to the same double, if there is one.  Lengths are measured in quarters of
`2 ^ q`; `narrow` says that the next double below is only half as far away as
the next one above. -/
def onGrid? (m : Nat) (q : Int) (narrow : Bool) (k : Int) : Option Decimal :=
  let quarter := pow2 (q - 2).toNat * pow10 (-k).toNat
  let unit := pow2 (2 - q).toNat * pow10 k.toNat
  let value := 4 * m * quarter
  let low := (4 * m - if narrow then 1 else 2) * quarter
  let high := (4 * m + 2) * quarter
  let inside (x : Nat) : Bool :=
    if m % 2 = 0 then low ≤ x && x ≤ high else low < x && x < high
  let d := value / unit
  let r := value % unit
  match inside (d * unit), inside ((d + 1) * unit) with
  | true, true =>
    if 2 * r < unit || (2 * r == unit && d % 2 == 0) then some ⟨d, k⟩ else some ⟨d + 1, k⟩
  | true, false => some ⟨d, k⟩
  | false, true => some ⟨d + 1, k⟩
  | false, false => none

/-- The shortest decimal that reads back as the finite double `d`. -/
def shortest (d : Double) : Decimal :=
  if d.isZero then ⟨0, 0⟩
  else
    let (m, q) := binary64.value d.magnitude
    let narrow := m == pow2 52 && decide (binary64.minPower < q)
    let lead := leadingExponent m q
    match (List.range 17).findSome? fun (n : Nat) => onGrid? m q narrow (lead - n) with
    | some r => r.trimZeros
    | none => ⟨m * pow2 q.toNat, 0⟩

end Decimal

end CriteriaSql.Number
