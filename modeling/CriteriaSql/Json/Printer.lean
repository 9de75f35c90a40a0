/-
CriteriaSql/Json/Printer.lean

The compact text of a JSON value: no spaces, members in order.

Strings escape the double quote, the backslash and the characters below
U+0020, the common ones with a letter and the others as four hexadecimal
digits.  A double is written with the fewest digits that read back: positional,
with at least one digit after the point, from `1e-5` up to below `1e16`, and
otherwise with an exponent that always has a sign.
-/
import CriteriaSql.Json.Basic
import CriteriaSql.Number.Shortest

namespace CriteriaSql

open Number (Double Decimal)

/-! ### Strings -/

namespace Json

/-- The hexadecimal digit of a number below sixteen, in lower case. -/
def hexDigit (n : Nat) : Char :=
  if n < 10 then Char.ofNat (48 + n) else Char.ofNat (87 + n)

/-- One character inside a string. -/
def escaped (c : Char) : List Char :=
  if c = '"' then ['\\', '"']
  else if c = '\\' then ['\\', '\\']
  else if c = '\x08' then ['\\', 'b']
  else if c = '\t' then ['\\', 't']
  else if c = '\n' then ['\\', 'n']
  else if c = '\x0c' then ['\\', 'f']
  else if c = '\r' then ['\\', 'r']
  else if c.toNat < 32 then
    ['\\', 'u', '0', '0', hexDigit (c.toNat / 16), hexDigit (c.toNat % 16)]
  else [c]

/-- A string in double quotes. -/
def stringText (s : List Char) : List Char :=
  '"' :: (s.flatMap escaped ++ ['"'])

end Json

/-! ### Numbers -/

namespace JsonNumber

/-- Where the text of a double turns from positional to exponent notation: the
exponents of the leading digit that are written positionally. -/
structure DoubleLayout where
  leastPositional : Int
  beyondPositional : Int

/-- Positional from `1e-5` up to below `1e16`. -/
def layout : DoubleLayout := ⟨-5, 16⟩

/-- The digits `ds` of a decimal with the point `places` digits after the start,
at least one digit on either side. -/
def positional (ds : List Char) (places : Int) : List Char :=
  if places ≤ 0 then
    '0' :: '.' :: (List.replicate (-places).toNat '0' ++ ds)
  else
    let before := ds.take places.toNat
    let zeros := List.replicate (places.toNat - ds.length) '0'
    let after := ds.drop places.toNat
    before ++ zeros ++ '.' :: (if after.isEmpty then ['0'] else after)

/-- An integer with its sign always written. -/
def signed (n : Int) : List Char :=
  (if n < 0 then '-' else '+') :: Nat.toDigits 10 n.natAbs

/-- A decimal in exponent notation: one digit, the others after a point when
there are any, and the exponent. -/
def scientific (ds : List Char) (exponent : Int) : List Char :=
  ds.take 1 ++ (if ds.length ≤ 1 then [] else '.' :: ds.drop 1) ++ 'e' :: signed exponent

/-- The text of a finite double. -/
def doubleText (d : Double) : List Char :=
  let shortest := Decimal.shortest d
  let ds := Nat.toDigits 10 shortest.digits
  let lead := shortest.exponent + ds.length - 1
  let body :=
    if d.isZero || (layout.leastPositional ≤ lead && lead < layout.beyondPositional) then
      positional ds (lead + 1)
    else scientific ds lead
  if d.isNegative then '-' :: body else body

/-- The text of an integer. -/
def intText (n : Int) : List Char :=
  if n < 0 then '-' :: Nat.toDigits 10 n.natAbs else Nat.toDigits 10 n.natAbs

/-- The text of a number. -/
def chars : JsonNumber → List Char
  | .int n => intText n
  | .double d => doubleText d

/-- The text of a number. -/
def text (n : JsonNumber) : String :=
  String.ofList n.chars

end JsonNumber

/-! ### Values -/

namespace Json

mutual

/-- The compact text of a value. -/
def chars : Json → List Char
  | .null => ['n', 'u', 'l', 'l']
  | .bool true => ['t', 'r', 'u', 'e']
  | .bool false => ['f', 'a', 'l', 's', 'e']
  | .num n => n.chars
  | .str s => stringText s.toList
  | .arr items => '[' :: itemChars items
  | .obj members => '\x7b' :: memberChars members

/-- The items that are left of an array, and its closing bracket. -/
def itemChars : List Json → List Char
  | [] => [']']
  | v :: [] => v.chars ++ [']']
  | v :: w :: vs => v.chars ++ ',' :: itemChars (w :: vs)

/-- The members that are left of an object, and its closing brace. -/
def memberChars : List (String × Json) → List Char
  | [] => ['\x7d']
  | (k, v) :: [] => stringText k.toList ++ ':' :: (v.chars ++ ['\x7d'])
  | (k, v) :: m :: ms => stringText k.toList ++ ':' :: (v.chars ++ ',' :: memberChars (m :: ms))

end

/-- The compact text of a value. -/
def text (v : Json) : String :=
  String.ofList v.chars

end Json

end CriteriaSql
