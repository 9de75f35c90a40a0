/-
CriteriaSql/Text/Digits.lean

Decimal digits and the numbers they write, with or without a sign.

Main statement: a run of digits is taken whole from in front of a character that
is none (`spanDigits_append`).
-/

namespace CriteriaSql

/-- An ASCII digit. -/
def isDigit (c : Char) : Bool :=
  '0' ≤ c && c ≤ '9'

/-- The value of an ASCII digit. -/
def digitValue (c : Char) : Nat :=
  c.toNat - 48

/-- The number that a text of digits writes. -/
def natOfDigits (ds : List Char) : Nat :=
  ds.foldl (fun n c => n * 10 + digitValue c) 0

/-- The digits in front, and what follows them. -/
def spanDigits (cs : List Char) : List Char × List Char :=
  (cs.takeWhile isDigit, cs.dropWhile isDigit)

/-- A run of characters ends where the first one of another kind stands. -/
theorem takeWhile_append_of_ends {p : Char → Bool} {cs r : List Char} (hcs : ∀ c ∈ cs, p c)
    (hr : ∀ c ∈ r.head?, p c = false) : (cs ++ r).takeWhile p = cs := by
  rw [List.takeWhile_append_of_pos hcs]
  rcases r with - | ⟨c, r⟩
  · exact List.append_nil cs
  · rw [List.takeWhile_cons_of_neg (by simp [hr c rfl]), List.append_nil]

theorem dropWhile_append_of_ends {p : Char → Bool} {cs r : List Char} (hcs : ∀ c ∈ cs, p c)
    (hr : ∀ c ∈ r.head?, p c = false) : (cs ++ r).dropWhile p = r := by
  rw [List.dropWhile_append_of_pos hcs]
  rcases r with - | ⟨c, r⟩
  · rfl
  · rw [List.dropWhile_cons_of_neg (by simp [hr c rfl])]

theorem spanDigits_append {ds r : List Char} (hds : ∀ c ∈ ds, isDigit c)
    (hr : ∀ c ∈ r.head?, isDigit c = false) : spanDigits (ds ++ r) = (ds, r) := by
  rw [spanDigits, takeWhile_append_of_ends hds hr, dropWhile_append_of_ends hds hr]

/-- A sign in front, true for minus, and what follows it. -/
def spanSign : List Char → Bool × List Char
  | '-' :: cs => (true, cs)
  | '+' :: cs => (false, cs)
  | cs => (false, cs)

/-- The integer that a whole text writes: a sign or none, and digits. -/
def intOfText? (cs : List Char) : Option Int :=
  let (negative, ds) := spanSign cs
  if !ds.isEmpty && ds.all isDigit then
    some (if negative then -(natOfDigits ds : Int) else natOfDigits ds)
  else none

end CriteriaSql
