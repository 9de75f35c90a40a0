/-
CriteriaSql/Time/Calendar.lean

Dates of the Gregorian calendar, extended to all years, and their numbers:
day 0 is 2000-01-01.
-/

namespace CriteriaSql.Time

/-- A date. -/
structure Date where
  year : Int
  month : Nat
  day : Nat
deriving DecidableEq, Repr

namespace Date

/-! ### Lengths -/

/-- Every fourth year is a leap year, but of the hundredth ones only every
fourth. -/
def isLeap (year : Int) : Bool :=
  year % 4 == 0 && (year % 100 != 0 || year % 400 == 0)

/-- The lengths of the months of a year. -/
def monthLengths (year : Int) : List Nat :=
  [31, if isLeap year then 29 else 28, 31, 30, 31, 30, 31, 31, 30, 31, 30, 31]

/-- The length of a month. -/
def daysInMonth (year : Int) (month : Nat) : Nat :=
  (monthLengths year).getD (month - 1) 0

/-- The years that dates have. -/
def yearInRange (year : Int) : Bool :=
  -262143 ≤ year && year ≤ 262142

/-- The date with the given numbers, if there is one. -/
def ofNumbers? (year : Int) (month day : Nat) : Option Date :=
  if yearInRange year && 1 ≤ month && month ≤ 12 && 1 ≤ day && day ≤ daysInMonth year month then
    some ⟨year, month, day⟩
  else none

/-! ### Day numbers -/

/-- The days from 0001-01-01 to the first day of a year. -/
def daysBeforeYear (year : Int) : Int :=
  let y := year - 1
  365 * y + y / 4 - y / 100 + y / 400

/-- The day number of 0001-01-01, with the opposite sign. -/
def epoch : Int := daysBeforeYear 2000

/-- The days from the first day of a year to that of a month. -/
def daysBeforeMonth (year : Int) (month : Nat) : Nat :=
  ((monthLengths year).take (month - 1)).foldl (· + ·) 0

/-- The number of a date. -/
def toDays (d : Date) : Int :=
  daysBeforeYear d.year + daysBeforeMonth d.year d.month + d.day - 1 - epoch

/-- The month and day that lie `n` days after the first day of `month`, where
`lengths` are the lengths of that month and the ones after it. -/
def monthAndDay (month : Nat) (lengths : List Nat) (n : Nat) : Nat × Nat :=
  match lengths with
  | [] => (month, n + 1)
  | length :: lengths =>
    if n < length then (month, n + 1) else monthAndDay (month + 1) lengths (n - length)

/-- The year that holds the `n`-th day after 0001-01-01.  The estimate by the
mean length of a year is off by at most one. -/
def yearOfDay (n : Int) : Int :=
  let y := n * 400 / 146097 + 1
  if n < daysBeforeYear y then y - 1
  else if daysBeforeYear (y + 1) ≤ n then y + 1
  else y

/-- The date with the given number, if its year is in range. -/
def ofDays? (days : Int) : Option Date :=
  let n := days + epoch
  let year := yearOfDay n
  let (month, day) := monthAndDay 1 (monthLengths year) (n - daysBeforeYear year).toNat
  if yearInRange year then some ⟨year, month, day⟩ else none

end Date

/-- A time of day.  A leap second is the 59th second of a minute with a billion
nanoseconds more. -/
structure TimeOfDay where
  hour : Nat
  minute : Nat
  second : Nat
  nanos : Nat
deriving DecidableEq, Repr

namespace TimeOfDay

/-- The time with the given numbers, if there is one.  Second 60 is the leap
second of any minute. -/
def ofNumbers? (hour minute second nanos : Nat) : Option TimeOfDay :=
  if hour < 24 && minute < 60 && second ≤ 60 && nanos < 1000000000 then
    if second = 60 then some ⟨hour, minute, 59, 1000000000 + nanos⟩
    else some ⟨hour, minute, second, nanos⟩
  else none

/-- The nanoseconds from midnight. -/
def toNanos (t : TimeOfDay) : Nat :=
  (t.hour * 3600 + t.minute * 60 + t.second) * 1000000000 + t.nanos

/-- The time a number of microseconds after midnight, days dropped. -/
def ofMicros (micros : Int) : TimeOfDay :=
  let n := (micros % 86400000000).toNat
  let s := n / 1000000
  ⟨s / 3600, s / 60 % 60, s % 60, n % 1000000 * 1000⟩

end TimeOfDay

/-- A date and a time. -/
structure DateTime where
  date : Date
  time : TimeOfDay
deriving DecidableEq, Repr

namespace DateTime

/-- The nanoseconds from 2000-01-01 00:00:00. -/
def toNanos (t : DateTime) : Int :=
  t.date.toDays * 86400000000000 + t.time.toNanos

/-- The microseconds from 2000-01-01 00:00:00, cut toward it. -/
def microsOfNanos (nanos : Int) : Int :=
  nanos.tdiv 1000

/-- The date and time a number of microseconds from 2000-01-01 00:00:00, if the
year is in range. -/
def ofMicros? (micros : Int) : Option DateTime :=
  (Date.ofDays? (micros / 86400000000)).map fun date => ⟨date, TimeOfDay.ofMicros micros⟩

end DateTime

end CriteriaSql.Time
