/-
CriteriaSql/Json/Parser.lean

Reading JSON text.

The text is one value with blanks around it (space, tab, line feed, carriage
return).  Strings hold no control character below U+0020, and a surrogate
escape is read only in a pair.  A repeated member name keeps its first position
and takes the last value.  Arrays and objects nested deeper than 127 levels are
refused.
-/
import CriteriaSql.Json.NumberLiteral

namespace CriteriaSql.Json

/-! ### Blanks -/

/-- The four blanks that JSON text may hold between tokens. -/
def isSpacing (c : Char) : Bool :=
  c = ' ' || c = '\t' || c = '\n' || c = '\r'

/-- Drop the blanks in front. -/
def skip (cs : List Char) : List Char :=
  cs.dropWhile isSpacing

/-! ### Strings -/

/-- The value of a hexadecimal digit in either case. -/
def hexValue? (c : Char) : Option Nat :=
  if '0' ≤ c && c ≤ '9' then some (c.toNat - 48)
  else if 'a' ≤ c && c ≤ 'f' then some (c.toNat - 87)
  else if 'A' ≤ c && c ≤ 'F' then some (c.toNat - 55)
  else none

/-- The number that four hexadecimal digits write. -/
def hexQuad? (a b c d : Char) : Option Nat := do
  return ((← hexValue? a) * 16 + (← hexValue? b)) * 256 + (← hexValue? c) * 16 + (← hexValue? d)

/-- The character of an escape with one letter. -/
def escape? : Char → Option Char
  | '"' => some '"'
  | '\\' => some '\\'
  | '/' => some '/'
  | 'b' => some '\x08'
  | 'f' => some '\x0c'
  | 'n' => some '\n'
  | 'r' => some '\r'
  | 't' => some '\t'
  | _ => none

/-- A part of a string: a character, or half of a surrogate pair, which only an
escape can write. -/
inductive StringUnit where
  | char (c : Char)
  | half (n : Nat)

/-- The unit that four hexadecimal digits stand for. -/
def StringUnit.ofNat (n : Nat) : StringUnit :=
  if 0xD800 ≤ n && n < 0xE000 then .half n else .char (Char.ofNat n)

/-- The character of a surrogate pair. -/
def surrogatePair? (high low : Nat) : Option Char :=
  if 0xD800 ≤ high && high < 0xDC00 && 0xDC00 ≤ low && low < 0xE000 then
    some (Char.ofNat (0x10000 + (high - 0xD800) * 0x400 + (low - 0xDC00)))
  else none

/-- The characters of the units; each half has its partner next to it. -/
def pairUnits : List StringUnit → Option (List Char)
  | [] => some []
  | .char c :: us => (pairUnits us).map (c :: ·)
  | .half high :: .half low :: us => do
    let c ← surrogatePair? high low
    let cs ← pairUnits us
    return c :: cs
  | .half _ :: _ => none

/-- Read the units of a string up to its closing quote. -/
def readUnits : List Char → Option (List StringUnit × List Char)
  | [] => none
  | '"' :: cs => some ([], cs)
  | '\\' :: 'u' :: a :: b :: c :: d :: cs => do
    let n ← hexQuad? a b c d
    let (us, rest) ← readUnits cs
    return (.ofNat n :: us, rest)
  | '\\' :: c :: cs => do
    let ch ← escape? c
    let (us, rest) ← readUnits cs
    return (.char ch :: us, rest)
  | c :: cs => do
    if c = '\\' || c.toNat < 32 then none
    else
      let (us, rest) ← readUnits cs
      return (.char c :: us, rest)

/-- Read the inside of a string up to its closing quote. -/
def readString (cs : List Char) : Option (List Char × List Char) := do
  let (us, rest) ← readUnits cs
  let s ← pairUnits us
  return (s, rest)

/-! ### Values -/

/-- A reader of one value from the front of a text. -/
abbrev Reader (α : Type) := List Char → Option (α × List Char)

/-- Items with a comma between each two, up to the closing character.  A comma
that is not nearer to the end of the text than the start ends the reading. -/
def separated {α : Type} (closing : Char) (item : Reader α) (cs : List Char) :
    Option (List α × List Char) :=
  match item (skip cs) with
  | none => none
  | some (v, rest) =>
    match skip rest with
    | [] => none
    | c :: rest =>
      if c = closing then some ([v], rest)
      else if c = ',' then
        if rest.length < cs.length then
          (separated closing item rest).map fun r => (v :: r.1, r.2)
        else none
      else none
termination_by cs.length

/-- The inside of a bracketed list, with its closing character. -/
def bracketed {α : Type} (closing : Char) (item : Reader α) (cs : List Char) :
    Option (List α × List Char) :=
  match skip cs with
  | [] => none
  | c :: rest => if c = closing then some ([], rest) else separated closing item (c :: rest)

/-- A member: a name in quotes, a colon and a value. -/
def readMember (value : Reader Json) : Reader (String × Json)
  | '"' :: cs => do
    let (name, rest) ← readString cs
    match skip rest with
    | ':' :: rest =>
      let (v, rest) ← value (skip rest)
      return ((String.ofList name, v), rest)
    | _ => none
  | _ => none

/-- A value that is no array and no object. -/
def readScalar : Reader Json
  | 'n' :: 'u' :: 'l' :: 'l' :: cs => some (.null, cs)
  | 't' :: 'r' :: 'u' :: 'e' :: cs => some (.bool true, cs)
  | 'f' :: 'a' :: 'l' :: 's' :: 'e' :: cs => some (.bool false, cs)
  | '"' :: cs => (readString cs).map fun r => (.str (String.ofList r.1), r.2)
  | cs => (JsonNumber.read cs).map fun r => (.num r.1, r.2)

/-- A value with at most `depth` levels of arrays and objects. -/
def readValue : (depth : Nat) → Reader Json
  | 0, cs => readScalar cs
  | depth + 1, cs =>
    match cs with
    | '[' :: cs =>
      (bracketed ']' (readValue depth) cs).map fun r => (.arr r.1, r.2)
    | '\x7b' :: cs =>
      (bracketed '\x7d' (readMember (readValue depth)) cs).map fun r =>
        (.obj (r.1.foldl (fun ms m => Members.insert ms m.1 m.2) []), r.2)
    | cs => readScalar cs

/-- The levels of arrays and objects that a text may nest. -/
def maxDepth : Nat := 127

/-- The value that a text writes. -/
def parse? (cs : List Char) : Option Json :=
  match readValue maxDepth (skip cs) with
  | some (v, rest) => if (skip rest).isEmpty then some v else none
  | none => none

end CriteriaSql.Json
