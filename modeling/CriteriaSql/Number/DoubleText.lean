/-
CriteriaSql/Number/DoubleText.lean

Reading doubles from text: a sign or none, then `inf`, `infinity` or `nan` in
any case, or digits with at most one point among or around them and an exponent
or none.  The double is the nearest to the written number.
-/
import CriteriaSql.Number.Double
import CriteriaSql.Text.Digits
import CriteriaSql.Text.Lowercase

namespace CriteriaSql.Number.Double

/-- The exponent behind the digits: nothing, or a letter `e`, a sign or nothing,
and digits. -/
def exponentOfText? : List Char → Option Int
  | [] => some 0
  | c :: cs => if c = 'e' || c = 'E' then intOfText? cs else none

/-- The fraction behind the whole digits and what follows it. -/
def spanFraction : List Char → List Char × List Char
  | '.' :: cs => spanDigits cs
  | cs => ([], cs)

/-- The double that a text of digits, a point and an exponent writes. -/
def ofDigitText? (negative : Bool) (cs : List Char) : Option Double :=
  let (whole, cs) := spanDigits cs
  let (fraction, cs) := spanFraction cs
  if whole.isEmpty && fraction.isEmpty then none
  else
    (exponentOfText? cs).map fun exponent =>
      ofDecimal negative (natOfDigits (whole ++ fraction)) (exponent - fraction.length)

/-- The double that a whole text writes. -/
def ofText? (cs : List Char) : Option Double :=
  let (negative, cs) := spanSign cs
  match String.ofList (Text.asciiLowercase cs) with
  | "inf" | "infinity" => some (infinite negative)
  | "nan" => some (nan negative)
  | _ => ofDigitText? negative cs

end CriteriaSql.Number.Double
