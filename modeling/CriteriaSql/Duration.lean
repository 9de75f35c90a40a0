/-
CriteriaSql/Duration.lean

Spans of time in whole microseconds, and their text.
-/
import CriteriaSql.Number.Power

namespace CriteriaSql

/-- A span of time. -/
structure Duration where
  micros : Nat
deriving DecidableEq, Repr

namespace Duration

/-- Decimal digits of `n`, filled up with zeros in front to a width. -/
def padded (width n : Nat) : List Char :=
  let ds := Nat.toDigits 10 n
  List.replicate (width - ds.length) '0' ++ ds

/-- Drop the zeros at the end. -/
def trimZeros (ds : List Char) : List Char :=
  (ds.reverse.dropWhile (· = '0')).reverse

/-- `micros` in a unit of `10 ^ places` microseconds: the whole part, and the
rest as a decimal fraction without zeros at its end. -/
def inUnit (micros places : Nat) (name : String) : String :=
  let fraction := trimZeros (padded places (micros % pow10 places))
  String.ofList (Nat.toDigits 10 (micros / pow10 places)
    ++ (if fraction.isEmpty then [] else '.' :: fraction)) ++ name

/-- The span in the largest unit with a whole part that is not zero; the empty
span is `0ns`. -/
def text (d : Duration) : String :=
  if d.micros = 0 then "0ns"
  else if d.micros < 1000 then inUnit d.micros 0 "µs"
  else if d.micros < 1000000 then inUnit d.micros 3 "ms"
  else inUnit d.micros 6 "s"

end Duration

end CriteriaSql
