/-
CriteriaSql/Number/Rounding.lean

Quotients of natural numbers rounded to whole numbers: to the nearest one, and
a half either to the even neighbour or up.  A quotient that is whole is kept
(`divToEven_mul_right`).
-/

namespace CriteriaSql.Number

/-- The quotient rounded to the nearest whole number, ties to the even one. -/
def divToEven (num den : Nat) : Nat :=
  let m := num / den
  let r := num % den
  if den < 2 * r || (2 * r == den && m % 2 == 1) then m + 1 else m

/-- The quotient rounded to the nearest whole number, ties up. -/
def divHalfUp (num den : Nat) : Nat :=
  (2 * num + den) / (2 * den)

theorem divToEven_mul_right {den : Nat} (h : 0 < den) (n : Nat) :
    divToEven (n * den) den = n := by
  have hne : (0 == den) = false := by
    rw [beq_eq_false_iff_ne]
    omega
  simp [divToEven, Nat.mul_div_cancel n h, hne]

end CriteriaSql.Number
