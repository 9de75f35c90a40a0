/-
CriteriaSql/Number/Power.lean

Powers of two and ten.
-/

namespace CriteriaSql

/-- The `n`-th power of two. -/
def pow2 (n : Nat) : Nat := Nat.pow 2 n

/-- The `n`-th power of ten. -/
def pow10 (n : Nat) : Nat := Nat.pow 10 n

@[simp] theorem pow2_zero : pow2 0 = 1 := rfl

theorem pow2_succ (n : Nat) : pow2 (n + 1) = pow2 n * 2 := rfl

theorem pow2_add (m n : Nat) : pow2 (m + n) = pow2 m * pow2 n := Nat.pow_add 2 m n

theorem pow2_pos (n : Nat) : 0 < pow2 n := Nat.pow_pos (by decide)

theorem pow10_pos (n : Nat) : 0 < pow10 n := Nat.pow_pos (by decide)

end CriteriaSql
