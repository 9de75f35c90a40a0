/-
CriteriaSql/Number/FixedDecimal.lean

Decimal numbers with a mantissa of 96 bits and at most 28 places.

A written number with more places than that is rounded, half up, by the first
digit that is left out; one whose whole part is too large is no such number.  A
sum keeps as many places as the mantissa has room for, and a half goes to the
even digit.
-/
import CriteriaSql.Number.Power
import CriteriaSql.Number.Rounding
import CriteriaSql.Text.Digits

namespace CriteriaSql

open Number (divToEven divHalfUp)

/-- The number `mantissa / 10 ^ places`, negated when `negative` is set. -/
structure FixedDecimal where
  negative : Bool
  mantissa : Nat
  places : Nat
deriving DecidableEq, Repr

namespace FixedDecimal

/-- The bound of the mantissa. -/
def bound : Nat := pow2 96

/-- The largest number of places. -/
def maxPlaces : Nat := 28

/-- The number, if its mantissa is within the bound. -/
def checked (negative : Bool) (mantissa places : Nat) : Option FixedDecimal :=
  if mantissa < bound then some ⟨negative, mantissa, places⟩ else none

/-! ### Rounding -/

/-- With at most the given number of places, rounded half up. -/
def withPlaces (d : FixedDecimal) (places : Nat) : FixedDecimal :=
  if d.places ≤ places then d
  else { d with mantissa := divHalfUp d.mantissa (pow10 (d.places - places)), places }

/-- Drop the zeros at the end of a fraction. -/
def trimPlaces (mantissa : Nat) : (places : Nat) → Nat × Nat
  | 0 => (mantissa, 0)
  | places + 1 =>
    if mantissa % 10 = 0 then trimPlaces (mantissa / 10) places else (mantissa, places + 1)

/-- The form without zeros at the end of the fraction; zero has no sign. -/
def normalized (d : FixedDecimal) : FixedDecimal :=
  let (mantissa, places) := trimPlaces d.mantissa d.places
  if mantissa = 0 then ⟨false, 0, 0⟩ else ⟨d.negative, mantissa, places⟩

/-! ### Sums -/

/-- The number `n / 10 ^ total` with at most the given places, and as many of
them as the bound of the mantissa allows, a half rounded to the even digit. -/
def fitting (n total : Nat) : (places : Nat) → Option FixedDecimal
  | 0 => checked false (divToEven n (pow10 total)) 0
  | places + 1 =>
    let mantissa := divToEven n (pow10 (total - (places + 1)))
    if mantissa < bound then some ⟨false, mantissa, places + 1⟩ else fitting n total places

/-- The sum of two numbers without sign. -/
def sum (a b : FixedDecimal) : Option FixedDecimal :=
  if a.mantissa = 0 then some b
  else if b.mantissa = 0 then some a
  else
    let places := max a.places b.places
    let n := a.mantissa * pow10 (places - a.places) + b.mantissa * pow10 (places - b.places)
    fitting n places places

/-! ### Reading -/

/-- Round up when the digit is at least five.  A mantissa that leaves the bound
by this gives up a place. -/
def roundBy (negative : Bool) (mantissa places : Nat) (digit : Char) : Option FixedDecimal :=
  let rounded := if 5 ≤ digitValue digit then mantissa + 1 else mantissa
  if rounded < bound then some ⟨negative, rounded, places⟩
  else if places = 0 then none
  else some ⟨negative, (rounded + 4) / 10, places - 1⟩

/-- Whether a mantissa is short: even without its last digit it leaves no doubt
that it fits a word of 64 bits. -/
def isShort (mantissa : Nat) : Bool :=
  mantissa / 10 < pow2 64 / 10 - 255

/-- The text behind the last place, where what stands for the digit zero is
written so: a point right there, and behind a short mantissa an underscore. -/
def behindLast (mantissa : Nat) : List Char → List Char
  | '.' :: cs => '0' :: cs
  | '_' :: cs => if isShort mantissa then '0' :: cs else cs
  | cs => cs

/-- Finish a number by the text that has no room in it, which holds digits and
underscores only: the first digit rounds. -/
def finish (negative : Bool) (mantissa places : Nat) (rest : List Char) : Option FixedDecimal :=
  let rest := behindLast mantissa rest
  if rest.all fun c => isDigit c || c = '_' then
    match rest.find? isDigit with
    | some digit => roundBy negative mantissa places digit
    | none => some ⟨negative, mantissa, places⟩
  else none

/-- Read on, with the mantissa and places so far; `inFraction` says that the
point is passed, and `started` that there was a digit. -/
def readOn (negative inFraction started : Bool) (mantissa places : Nat) :
    List Char → Option FixedDecimal
  | [] => if started then some ⟨negative, mantissa, places⟩ else none
  | c :: cs =>
    if inFraction && places = maxPlaces then finish negative mantissa places (c :: cs)
    else if isDigit c then
      let next := mantissa * 10 + digitValue c
      if next < bound then
        readOn negative inFraction true next (if inFraction then places + 1 else places) cs
      else if inFraction then finish negative mantissa places (c :: cs)
      else none
    else if c = '.' && !inFraction then readOn negative true started mantissa places cs
    else if c = '_' && started then readOn negative inFraction started mantissa places cs
    else none

/-- The number that a text without exponent writes; underscores may stand
behind a digit. -/
def ofPlainText? (cs : List Char) : Option FixedDecimal :=
  let (negative, cs) := spanSign cs
  readOn negative false false 0 0 cs

/-- Multiply by a power of ten.  An exponent larger than the number of places
has at most the largest number of places. -/
def scaleUp (d : FixedDecimal) (exponent : Nat) : Option FixedDecimal :=
  if exponent ≤ d.places then some { d with places := d.places - exponent }
  else if maxPlaces < exponent then none
  else checked d.negative (d.mantissa * pow10 (exponent - d.places)) 0

/-- Divide by a power of ten, which has at most the largest number of places. -/
def scaleDown (d : FixedDecimal) (exponent : Nat) : Option FixedDecimal :=
  if maxPlaces < exponent then none
  else
    let kept := d.withPlaces (maxPlaces - exponent)
    some { kept with places := kept.places + exponent }

/-- An exponent of 32 bits without minus sign. -/
def exponentOf? (cs : List Char) : Option Nat :=
  let ds := match cs with
    | '+' :: ds => ds
    | ds => ds
  if !ds.isEmpty && ds.all isDigit && natOfDigits ds < pow2 32 then some (natOfDigits ds)
  else none

/-- A letter that begins an exponent. -/
def isExponentMark (c : Char) : Bool :=
  c = 'e' || c = 'E'

/-- The number that a text writes. -/
def ofText? (cs : List Char) : Option FixedDecimal := do
  let base ← ofPlainText? (cs.takeWhile (!isExponentMark ·))
  match cs.dropWhile (!isExponentMark ·) with
  | [] => return base
  | _ :: '-' :: exponent => base.scaleDown (← exponentOf? exponent)
  | _ :: exponent => base.scaleUp (← exponentOf? exponent)

/-! ### Writing -/

/-- The decimal text without exponent. -/
def text (d : FixedDecimal) : List Char :=
  let ds := Nat.toDigits 10 d.mantissa
  let ds := List.replicate (d.places + 1 - ds.length) '0' ++ ds
  let whole := ds.take (ds.length - d.places)
  let fraction := ds.drop (ds.length - d.places)
  (if d.negative then ['-'] else []) ++ whole
    ++ (if fraction.isEmpty then [] else '.' :: fraction)

end FixedDecimal

end CriteriaSql
