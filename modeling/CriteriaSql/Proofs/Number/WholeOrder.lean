/-
CriteriaSql/Proofs/Number/WholeOrder.lean

Whole numbers keep their order as doubles.

Rounding a whole number to a double cuts it at its leading bit: the exponent
field counts the bits, and the fraction field holds what follows the first of
them, rounded to fifty-two places (`round_eq`).  Of two whole numbers the
smaller one has fewer bits or a smaller fraction, so its word is not greater
(`round_mono`); it is smaller when nothing was rounded away, as below `2 ^ 53`
(`round_lt`).  Signs carry both over to the integers (`orderKey_ofInt_mono`,
`orderKey_ofInt_lt`).

Main result: the doubles of two integers are in order exactly when the integers
are, or when both have the same double (`orderKey_ofInt_le_iff`).
-/
import CriteriaSql.Number.Double
import Mathlib.Tactic.Common

namespace CriteriaSql.Number

/-! ### Quotients rounded to even -/

/-- The rounded quotient is a neighbour of the quotient, on the side of the
half that it is nearer to. -/
theorem divToEven_cases (num den : Nat) :
    (divToEven num den = num / den ∧ 2 * (num % den) ≤ den) ∨
      (divToEven num den = num / den + 1 ∧ den ≤ 2 * (num % den)) := by
  simp only [divToEven]
  split
  · next h =>
    simp only [Bool.or_eq_true, Bool.and_eq_true, decide_eq_true_eq, beq_iff_eq] at h
    exact .inr ⟨rfl, by omega⟩
  · next h =>
    simp only [Bool.or_eq_true, decide_eq_true_eq, not_or] at h
    exact .inl ⟨rfl, by omega⟩

theorem divToEven_mono {num num' : Nat} (den : Nat) (h : num ≤ num') :
    divToEven num den ≤ divToEven num' den := by
  have hfloor : num / den ≤ num' / den := Nat.div_le_div_right h
  rcases Nat.lt_or_eq_of_le hfloor with hlt | heq
  · rcases divToEven_cases num den with ⟨hd, -⟩ | ⟨hd, -⟩ <;>
      rcases divToEven_cases num' den with ⟨hd', -⟩ | ⟨hd', -⟩ <;> omega
  · -- both lie between the same two whole numbers
    have hrest : num % den ≤ num' % den := by
      have hnum := Nat.div_add_mod num den
      have hnum' := Nat.div_add_mod num' den
      rw [heq] at hnum
      omega
    simp only [divToEven, heq]
    split
    · next hup =>
      have hup' : den < 2 * (num' % den) || (2 * (num' % den) == den && num' / den % 2 == 1) := by
        simp only [Bool.or_eq_true, Bool.and_eq_true, decide_eq_true_eq, beq_iff_eq] at hup ⊢
        omega
      simp only [hup', if_true, Nat.le_refl]
    · split
      · exact Nat.le_succ _
      · exact Nat.le_refl _

/-! ### The word of a whole number -/

namespace BinaryFormat

/-- The leading bit of a whole number. -/
theorem floorLog2_one {n : Nat} (hn : n ≠ 0) : floorLog2 n 1 = n.log2 := by
  have hle : pow2 n.log2 ≤ n := Nat.log2_self_le hn
  have hone : Nat.log2 1 = 0 := rfl
  simp [floorLog2, hone, hle]

/-- The fraction of the word of a whole number, with the leading bit: cut to
fifty-three bits. -/
def cut (n : Nat) : Nat :=
  divToEven (n * pow2 (52 - n.log2)) (pow2 (n.log2 - 52))

/-- The word of a whole number, before it is known to be finite: the bits are
counted in the exponent field, to which the leading bit adds one. -/
def wholeWord (n : Nat) : Nat :=
  cut n + (n.log2 + 1022) * pow2 52

theorem round_eq {n : Nat} (hn : n ≠ 0) :
    binary64.round n 1 = min (wholeWord n) binary64.infinity := by
  have hq : max (floorLog2 n 1 - (binary64.fractionBits : Int)) binary64.minPower
      = (n.log2 : Int) - 52 := by
    rw [floorLog2_one hn]
    show max ((n.log2 : Int) - 52) (-1074) = _
    omega
  have hup : (-((n.log2 : Int) - 52)).toNat = 52 - n.log2 := by omega
  have hdown : ((n.log2 : Int) - 52).toNat = n.log2 - 52 := by omega
  have hfield : ((n.log2 : Int) - 52 - binary64.minPower).toNat = n.log2 + 1022 := by
    show ((n.log2 : Int) - 52 - (-1074)).toNat = _
    omega
  have hbits : binary64.fractionBits = 52 := rfl
  rw [round, if_neg hn]
  simp only [hq, hup, hdown, hfield, Nat.one_mul, wholeWord, cut]
  rw [hbits]

/-- Products of powers of two are equal when the exponents add up to the same. -/
theorem pow2_mul_pow2 {a b c d : Nat} (h : a + b = c + d) :
    pow2 a * pow2 b = pow2 c * pow2 d := by
  rw [← pow2_add, ← pow2_add, h]

/-- The fraction has its leading bit. -/
theorem le_cut {n : Nat} (hn : n ≠ 0) : pow2 52 ≤ cut n := by
  have hle : pow2 n.log2 ≤ n := Nat.log2_self_le hn
  have hpow : pow2 n.log2 * pow2 (52 - n.log2) = pow2 52 * pow2 (n.log2 - 52) :=
    pow2_mul_pow2 (by omega)
  calc pow2 52
      = divToEven (pow2 n.log2 * pow2 (52 - n.log2)) (pow2 (n.log2 - 52)) := by
        rw [hpow, divToEven_mul_right (pow2_pos _)]
    _ ≤ cut n := divToEven_mono _ (Nat.mul_le_mul_right _ hle)

/-- Rounding may carry over to one more bit. -/
theorem cut_le (n : Nat) : cut n ≤ pow2 53 := by
  have hlt : n < pow2 (n.log2 + 1) := Nat.lt_log2_self
  have hpow : pow2 (n.log2 + 1) * pow2 (52 - n.log2) = pow2 53 * pow2 (n.log2 - 52) :=
    pow2_mul_pow2 (by omega)
  calc cut n
      ≤ divToEven (pow2 (n.log2 + 1) * pow2 (52 - n.log2)) (pow2 (n.log2 - 52)) :=
        divToEven_mono _ (Nat.mul_le_mul_right _ (Nat.le_of_lt hlt))
    _ = pow2 53 := by rw [hpow, divToEven_mul_right (pow2_pos _)]

/-- Nothing is cut off of fifty-three bits. -/
theorem cut_eq {n : Nat} (h : n.log2 ≤ 52) : cut n = n * pow2 (52 - n.log2) := by
  have hone : pow2 (n.log2 - 52) = 1 * 1 := by
    rw [Nat.sub_eq_zero_of_le h]
    rfl
  rw [cut, hone, ← Nat.mul_one (n * _), divToEven_mul_right Nat.one_pos, Nat.mul_one]

theorem cut_lt {n : Nat} (h : n.log2 ≤ 52) : cut n < pow2 53 := by
  have hlt : n < pow2 (n.log2 + 1) := Nat.lt_log2_self
  have hpow : pow2 (n.log2 + 1) * pow2 (52 - n.log2) = pow2 53 := by
    rw [← pow2_add]
    congr 1
    omega
  rw [cut_eq h, ← hpow]
  exact Nat.mul_lt_mul_of_pos_right hlt (pow2_pos _)

/-! ### Order -/

theorem log2_mono {a b : Nat} (ha : a ≠ 0) (h : a ≤ b) : a.log2 ≤ b.log2 :=
  (Nat.le_log2 (by omega)).mpr (Nat.le_trans (Nat.log2_self_le ha) h)

/-- The exponent field of one more bit is one more. -/
theorem add_field_le {x y l l' : Nat} (h : x ≤ y + pow2 52) (hl : l < l') :
    x + (l + 1022) * pow2 52 ≤ y + (l' + 1022) * pow2 52 := by
  have hfield : (l + 1022 + 1) * pow2 52 ≤ (l' + 1022) * pow2 52 :=
    Nat.mul_le_mul_right _ (by omega)
  rw [Nat.succ_mul] at hfield
  omega

theorem wholeWord_mono {a b : Nat} (ha : a ≠ 0) (h : a ≤ b) : wholeWord a ≤ wholeWord b := by
  have hb : b ≠ 0 := by omega
  rcases Nat.lt_or_eq_of_le (log2_mono ha h) with hlt | heq
  · have hcut : cut a ≤ cut b + pow2 52 := by
      have := cut_le a
      have := le_cut hb
      have : pow2 53 = pow2 52 * 2 := pow2_succ 52
      omega
    exact add_field_le hcut hlt
  · have hcut : cut a ≤ cut b := by
      rw [cut, cut, heq]
      exact divToEven_mono _ (Nat.mul_le_mul_right _ h)
    rw [wholeWord, wholeWord, heq]
    exact Nat.add_le_add_right hcut _

/-- Nothing is lost of a whole number that has fifty-three bits. -/
theorem wholeWord_lt {a b : Nat} (ha : a ≠ 0) (hbits : a.log2 ≤ 52) (h : a < b) :
    wholeWord a < wholeWord b := by
  have hb : b ≠ 0 := by omega
  rcases Nat.lt_or_eq_of_le (log2_mono ha (Nat.le_of_lt h)) with hlt | heq
  · have hcut : cut a + 1 ≤ cut b + pow2 52 := by
      have := cut_lt hbits
      have := le_cut hb
      have : pow2 53 = pow2 52 * 2 := pow2_succ 52
      omega
    have := add_field_le hcut hlt
    rw [wholeWord, wholeWord]
    omega
  · have hcut : cut a < cut b := by
      rw [cut_eq hbits, cut_eq (heq ▸ hbits), heq]
      exact Nat.mul_lt_mul_of_pos_right h (pow2_pos _)
    rw [wholeWord, wholeWord, heq]
    exact Nat.add_lt_add_right hcut _

theorem wholeWord_lt_infinity {n : Nat} (h : n.log2 ≤ 52) : wholeWord n < binary64.infinity := by
  have hcut := cut_lt h
  have hfield : (n.log2 + 1022) * pow2 52 ≤ (52 + 1022) * pow2 52 :=
    Nat.mul_le_mul_right _ (by omega)
  calc wholeWord n
      < pow2 53 + (52 + 1022) * pow2 52 := Nat.add_lt_add_of_lt_of_le hcut hfield
    _ < binary64.infinity := by decide

theorem round_zero : binary64.round 0 1 = 0 := rfl

theorem round_mono {a b : Nat} (h : a ≤ b) : binary64.round a 1 ≤ binary64.round b 1 := by
  by_cases ha : a = 0
  · rw [ha, round_zero]
    exact Nat.zero_le _
  · have hword := wholeWord_mono ha h
    rw [round_eq ha, round_eq (show b ≠ 0 by omega)]
    omega

theorem log2_le_of_lt {n : Nat} (h : n < pow2 53) : n.log2 ≤ 52 := by
  by_cases hn : n = 0
  · rw [hn]
    exact Nat.zero_le 52
  · exact Nat.le_of_lt_succ ((Nat.log2_lt hn).mpr h)

theorem round_lt {a b : Nat} (ha : a < pow2 53) (h : a < b) :
    binary64.round a 1 < binary64.round b 1 := by
  have hbits := log2_le_of_lt ha
  rw [round_eq (show b ≠ 0 by omega)]
  by_cases ha : a = 0
  · have hb : b ≠ 0 := by omega
    have hcut := le_cut hb
    have hpos := pow2_pos 52
    have hfinite : 0 < binary64.infinity := by decide
    rw [ha, round_zero, wholeWord]
    omega
  · have hword := wholeWord_lt ha hbits h
    have hfinite := wholeWord_lt_infinity hbits
    rw [round_eq ha]
    omega

end BinaryFormat

/-! ### Integers -/

namespace Double

open BinaryFormat (round_le_infinity round_mono round_lt)

/-- The magnitude of a number, with its sign, is its place in the order. -/
theorem orderKey_ofMagnitude (negative : Bool) {magnitude : Nat} (h : magnitude < pow2 63) :
    (ofMagnitude negative magnitude).orderKey
      = if negative then -(magnitude : Int) else magnitude := by
  have hsize : pow2 63 + pow2 63 = 2 ^ 64 := by decide
  have hword : (ofMagnitude negative magnitude).bits.toNat
      = magnitude + if negative then pow2 63 else 0 := by
    rw [ofMagnitude, UInt64.toNat_ofNat']
    exact Nat.mod_eq_of_lt (by split <;> omega)
  rw [orderKey, isNegative, Double.magnitude, hword]
  cases negative with
  | false =>
    have hnot : ¬pow2 63 ≤ magnitude := by omega
    simp [hnot, Nat.mod_eq_of_lt h]
  | true => simp [Nat.mod_eq_of_lt h]

/-- The words of whole numbers leave the sign bit alone. -/
theorem round_lt_sign (n : Nat) : binary64.round n 1 < pow2 63 := by
  have hinfinity : binary64.infinity < pow2 63 := by decide
  exact Nat.lt_of_le_of_lt (round_le_infinity _ n 1) hinfinity

theorem orderKey_ofInt (n : Int) :
    (ofInt n).orderKey
      = if n < 0 then -(binary64.round n.natAbs 1 : Int) else binary64.round n.natAbs 1 := by
  rw [ofInt, ofRatio, orderKey_ofMagnitude _ (round_lt_sign _)]
  simp only [decide_eq_true_eq]

theorem orderKey_ofInt_mono {m n : Int} (h : m ≤ n) :
    (ofInt m).orderKey ≤ (ofInt n).orderKey := by
  rw [orderKey_ofInt, orderKey_ofInt]
  split
  · split
    · have := round_mono (a := n.natAbs) (b := m.natAbs) (by omega)
      omega
    · omega
  · rw [if_neg (by omega)]
    have := round_mono (a := m.natAbs) (b := n.natAbs) (by omega)
    omega

/-- Up to `2 ^ 53` the order is strict, as nothing is rounded away. -/
theorem orderKey_ofInt_lt {m n : Int} (hm : m.natAbs ≤ pow2 53) (hn : n.natAbs ≤ pow2 53)
    (h : m < n) : (ofInt m).orderKey < (ofInt n).orderKey := by
  rw [orderKey_ofInt, orderKey_ofInt]
  split
  · split
    · have := round_lt (a := n.natAbs) (b := m.natAbs) (by omega) (by omega)
      omega
    · have := round_lt (a := 0) (b := m.natAbs) (pow2_pos 53) (by omega)
      omega
  · rw [if_neg (by omega)]
    have := round_lt (a := m.natAbs) (b := n.natAbs) (by omega) (by omega)
    omega

/-- Integers at the same place have the same double: there is one zero. -/
theorem ofInt_eq_of_orderKey {m n : Int} (h : (ofInt m).orderKey = (ofInt n).orderKey) :
    ofInt m = ofInt n := by
  -- the word of a negative integer is not zero
  have hpos : ∀ n : Int, n < 0 → 0 < binary64.round n.natAbs 1 := fun n hn =>
    Nat.zero_lt_of_lt (round_lt (pow2_pos 53) (show 0 < n.natAbs by omega))
  rw [orderKey_ofInt, orderKey_ofInt] at h
  have hsign : m < 0 ↔ n < 0 := by
    constructor
    · intro hm
      have := hpos m hm
      by_contra hn
      rw [if_pos hm, if_neg hn] at h
      omega
    · intro hn
      have := hpos n hn
      by_contra hm
      rw [if_neg hm, if_pos hn] at h
      omega
  have hword : binary64.round m.natAbs 1 = binary64.round n.natAbs 1 := by
    simp only [hsign] at h
    split at h <;> omega
  rw [ofInt, ofInt, ofRatio, ofRatio, hword]
  simp only [hsign]

theorem orderKey_ofInt_le_iff {m n : Int} :
    (ofInt m).orderKey ≤ (ofInt n).orderKey ↔ m ≤ n ∨ n < m ∧ ofInt m = ofInt n := by
  constructor
  · intro h
    by_cases hle : m ≤ n
    · exact .inl hle
    · have hlt : n < m := Int.not_le.mp hle
      have hback := orderKey_ofInt_mono (Int.le_of_lt hlt)
      exact .inr ⟨hlt, ofInt_eq_of_orderKey (Int.le_antisymm h hback)⟩
  · rintro (hle | ⟨-, heq⟩)
    · exact orderKey_ofInt_mono hle
    · exact Int.le_of_eq (congrArg orderKey heq)

/-- Up to `2 ^ 53` no two integers have the same double. -/
theorem ofInt_injective {m n : Int} (hm : m.natAbs ≤ pow2 53) (hn : n.natAbs ≤ pow2 53)
    (h : ofInt m = ofInt n) : m = n := by
  rcases Int.lt_trichotomy m n with hlt | heq | hgt
  · exact absurd (congrArg orderKey h) (Int.ne_of_lt (orderKey_ofInt_lt hm hn hlt))
  · exact heq
  · exact absurd (congrArg orderKey h) (Int.ne_of_gt (orderKey_ofInt_lt hn hm hgt))

end Double

end CriteriaSql.Number
