/-
CriteriaSql/Time/Reading.lean

Reading dates and times.

* `readRfc3339` reads the strict form `2024-01-31T23:59:59.5+01:00`, with
  exactly two digits for each number and four for the year, and gives the
  instant;
* `readDate`, `readTime` and `readDateTime` read lenient forms: blanks may stand
  before a number, numbers may have fewer digits, and a year with a sign may
  have any number of digits.
-/
import CriteriaSql.Number.Power
import CriteriaSql.Text.Blank
import CriteriaSql.Text.Digits
import CriteriaSql.Time.Calendar

namespace CriteriaSql.Time

open Text (trimStart isBlank)

/-! ### Pieces -/

/-- Exactly `width` digits. -/
def fixedNumber (width : Nat) (cs : List Char) : Option (Nat × List Char) :=
  let ds := cs.take width
  if ds.length = width && ds.all isDigit then some (natOfDigits ds, cs.drop width) else none

/-- The given character. -/
def literal (c : Char) : List Char → Option (List Char)
  | [] => none
  | d :: cs => if d = c then some cs else none

/-- One to `most` digits, as many as there are. -/
def number (most : Nat) (cs : List Char) : Option (Nat × List Char) :=
  let ds := (cs.take most).takeWhile isDigit
  if ds.isEmpty then none else some (natOfDigits ds, cs.drop ds.length)

/-- Digits after a point as nanoseconds; the first nine count. -/
def nanosOf (ds : List Char) : Nat :=
  let counted := ds.take 9
  natOfDigits counted * pow10 (9 - counted.length)

/-- A fraction of a second: nothing, or a point and digits. -/
def fraction : List Char → Option (Nat × List Char)
  | '.' :: cs =>
    let (ds, rest) := spanDigits cs
    if ds.isEmpty then none else some (nanosOf ds, rest)
  | cs => some (0, cs)

/-! ### Strict form -/

/-- The offset from universal time in seconds: `Z`, or a sign (the minus sign
U+2212 is one), hours and minutes of at most 23:59. -/
def offset (cs : List Char) : Option (Int × List Char) :=
  match cs with
  | [] => none
  | sign :: cs =>
    if sign = 'Z' || sign = 'z' then some (0, cs)
    else if sign = '+' || sign = '-' || sign = '\u2212' then do
      let (hours, cs) ← fixedNumber 2 cs
      let cs ← literal ':' cs
      let (minutes, cs) ← fixedNumber 2 cs
      if 24 ≤ hours || 60 ≤ minutes then none
      else
        let seconds : Int := hours * 3600 + minutes * 60
        return (if sign = '+' then seconds else -seconds, cs)
    else none

/-- The instant that a text in strict form names, in nanoseconds from 2000-01-01
00:00:00 universal time. -/
def readRfc3339 (cs : List Char) : Option Int := do
  let (year, cs) ← fixedNumber 4 cs
  let cs ← literal '-' cs
  let (month, cs) ← fixedNumber 2 cs
  let cs ← literal '-' cs
  let (day, cs) ← fixedNumber 2 cs
  let cs ← match cs with
    | c :: cs => if c = 'T' || c = 't' || c = ' ' then some cs else none
    | [] => none
  let (hour, cs) ← fixedNumber 2 cs
  let cs ← literal ':' cs
  let (minute, cs) ← fixedNumber 2 cs
  let cs ← literal ':' cs
  let (second, cs) ← fixedNumber 2 cs
  let (nanos, cs) ← fraction cs
  let (seconds, cs) ← offset cs
  let date ← Date.ofNumbers? year month day
  let time ← TimeOfDay.ofNumbers? hour minute second nanos
  if cs.isEmpty then return (DateTime.mk date time).toNanos - seconds * 1000000000 else none

/-! ### Lenient forms -/

/-- A year: up to four digits, or a sign and any number of digits. -/
def year (cs : List Char) : Option (Int × List Char) :=
  match trimStart cs with
  | '-' :: cs => (number cs.length cs).map fun r => (-r.1, r.2)
  | '+' :: cs => (number cs.length cs).map fun r => (r.1, r.2)
  | cs => (number 4 cs).map fun r => (r.1, r.2)

/-- A number of one or two digits after blanks. -/
def twoDigits (cs : List Char) : Option (Nat × List Char) :=
  number 2 (trimStart cs)

/-- A date with hyphens between its numbers; `gap` drops what may stand before
a hyphen. -/
def datePart (gap : List Char → List Char) (cs : List Char) : Option (Date × List Char) := do
  let (year, cs) ← year cs
  let cs ← literal '-' (gap cs)
  let (month, cs) ← twoDigits cs
  let cs ← literal '-' (gap cs)
  let (day, cs) ← twoDigits cs
  let date ← Date.ofNumbers? year month day
  return (date, cs)

/-- A date with nothing but blanks around it. -/
def readDate (cs : List Char) : Option Date := do
  let (date, cs) ← datePart trimStart cs
  if (trimStart cs).isEmpty then return date else none

/-- A colon, seconds and a fraction of a second, after blanks. -/
def secondsPart (cs : List Char) : Option ((Nat × Nat) × List Char) := do
  let cs ← literal ':' (trimStart cs)
  let (second, cs) ← twoDigits cs
  let (nanos, cs) ← fraction cs
  return ((second, nanos), cs)

/-- A time with nothing but blanks around it; the seconds may be missing. -/
def readTime (cs : List Char) : Option TimeOfDay := do
  let (hour, cs) ← twoDigits cs
  let cs ← literal ':' (trimStart cs)
  let (minute, cs) ← twoDigits cs
  let ((second, nanos), cs) := (secondsPart cs).getD ((0, 0), cs)
  let time ← TimeOfDay.ofNumbers? hour minute second nanos
  if (trimStart cs).isEmpty then return time else none

/-- A date, a separator and a time with seconds; `separator` drops what stands
between the two. -/
def dateTimeWith (separator : List Char → Option (List Char)) (cs : List Char) :
    Option DateTime := do
  let (date, cs) ← datePart id cs
  let cs ← separator cs
  let (hour, cs) ← twoDigits cs
  let cs ← literal ':' cs
  let (minute, cs) ← twoDigits cs
  let cs ← literal ':' cs
  let (second, cs) ← twoDigits cs
  let (nanos, cs) ← fraction cs
  let time ← TimeOfDay.ofNumbers? hour minute second nanos
  if cs.isEmpty then return ⟨date, time⟩ else none

/-- A date and time without offset, in nanoseconds from 2000-01-01 00:00:00: the
strict form taken to universal time, or the lenient form with a `T` or blanks
between the two parts. -/
def readDateTime (cs : List Char) : Option Int :=
  match readRfc3339 cs with
  | some nanos => some nanos
  | none =>
    match dateTimeWith (literal 'T') cs with
    | some t => some t.toNanos
    | none => (dateTimeWith (fun cs => some (trimStart cs)) cs).map DateTime.toNanos

end CriteriaSql.Time
