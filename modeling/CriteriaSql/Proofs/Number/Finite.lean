/-
CriteriaSql/Proofs/Number/Finite.lean

Doubles that are finite.

A ratio below `2 ^ 1023` rounds to a finite word (`round_lt_infinity`): its
leading bit gives the exponent, and the fraction that is rounded has at most
fifty-three bits.  The double of a whole number with few bits is no ratio of a
large numerator (`ratio_ofNat`), so a product of two such doubles is finite
(`isFinite_mul`).
-/
import CriteriaSql.Proofs.Number.WholeOrder

namespace CriteriaSql.Number

namespace BinaryFormat

/-! ### Rounding a ratio -/

theorem pow2_le_pow2 {a b : Nat} (h : a ≤ b) : pow2 a ≤ pow2 b :=
  Nat.pow_le_pow_right (by decide) h

/-- A ratio is compared with a power of two by whole numbers, whatever power they
are both multiplied by. -/
theorem shift_lt_iff {x y k l : Nat} {s : Int} (h : (l : Int) - k = s) :
    x * pow2 (-s).toNat < y * pow2 s.toNat ↔ x * pow2 k < y * pow2 l := by
  obtain ⟨c, hk⟩ : ∃ c, k = (-s).toNat + c := ⟨k - (-s).toNat, by omega⟩
  have hl : l = s.toNat + c := by omega
  rw [hk, hl, pow2_add, pow2_add, ← Nat.mul_assoc, ← Nat.mul_assoc]
  exact (Nat.mul_lt_mul_right (pow2_pos c)).symm

/-- A ratio is at least the power of its leading bit. -/
theorem floorLog2_le {num den : Nat} (hnum : num ≠ 0) :
    den * pow2 (floorLog2 num den).toNat ≤ num * pow2 (-floorLog2 num den).toNat := by
  have hle : pow2 num.log2 ≤ num := Nat.log2_self_le hnum
  have hden : den < pow2 (den.log2 + 1) := Nat.lt_log2_self
  unfold floorLog2
  dsimp only
  split
  · next h => exact h
  · generalize ht : (num.log2 : Int) - den.log2 = t
    calc den * pow2 (t - 1).toNat
        ≤ pow2 (den.log2 + 1) * pow2 (t - 1).toNat := Nat.mul_le_mul_right _ (Nat.le_of_lt hden)
      _ = pow2 num.log2 * pow2 (-(t - 1)).toNat := pow2_mul_pow2 (by omega)
      _ ≤ num * pow2 (-(t - 1)).toNat := Nat.mul_le_mul_right _ hle

/-- A ratio is below the next power of two. -/
theorem lt_floorLog2_succ {num den : Nat} (hden : den ≠ 0) :
    num * pow2 (-(floorLog2 num den + 1)).toNat < den * pow2 (floorLog2 num den + 1).toNat := by
  have hnum : num < pow2 (num.log2 + 1) := Nat.lt_log2_self
  have hle : pow2 den.log2 ≤ den := Nat.log2_self_le hden
  unfold floorLog2
  dsimp only
  split
  · generalize ht : (num.log2 : Int) - den.log2 = t
    calc num * pow2 (-(t + 1)).toNat
        < pow2 (num.log2 + 1) * pow2 (-(t + 1)).toNat :=
          Nat.mul_lt_mul_of_pos_right hnum (pow2_pos _)
      _ = pow2 den.log2 * pow2 (t + 1).toNat := pow2_mul_pow2 (by omega)
      _ ≤ den * pow2 (t + 1).toNat := Nat.mul_le_mul_right _ hle
  · next h =>
    rw [Int.sub_add_cancel]
    exact Nat.not_le.mp h

theorem floorLog2_lt {num den t : Nat} (hnum : num ≠ 0) (h : num < den * pow2 t) :
    floorLog2 num den < t := by
  by_contra hge
  have hle := @floorLog2_le num den hnum
  rw [show (-floorLog2 num den).toNat = 0 by omega, pow2_zero, Nat.mul_one] at hle
  have hmono : den * pow2 t ≤ den * pow2 (floorLog2 num den).toNat :=
    Nat.mul_le_mul_left _ (pow2_le_pow2 (by omega))
  omega

/-- The fraction that is rounded has at most fifty-three bits. -/
theorem divToEven_le {num den : Nat} (hden : den ≠ 0) {q : Int} (hq : floorLog2 num den - 52 ≤ q) :
    divToEven (num * pow2 (-q).toNat) (den * pow2 q.toNat) ≤ pow2 53 := by
  -- enough bits to make both powers whole
  generalize hk : (floorLog2 num den + 1).natAbs + q.natAbs = k
  obtain ⟨a, ha⟩ : ∃ a : Nat, (a : Int) - k = floorLog2 num den + 1 :=
    ⟨(floorLog2 num den + 1 + k).toNat, by omega⟩
  obtain ⟨b, hb⟩ : ∃ b : Nat, (b : Int) - k = q := ⟨(q + k).toNat, by omega⟩
  have hlt : num * pow2 k < den * pow2 53 * pow2 b := by
    calc num * pow2 k
        < den * pow2 a := (shift_lt_iff ha).mp (lt_floorLog2_succ hden)
      _ ≤ den * pow2 (53 + b) := Nat.mul_le_mul_left _ (pow2_le_pow2 (by omega))
      _ = den * pow2 53 * pow2 b := by rw [pow2_add, Nat.mul_assoc]
  have hshifted := (shift_lt_iff hb).mpr hlt
  rw [Nat.mul_comm den, Nat.mul_assoc] at hshifted
  have hpos : 0 < den * pow2 q.toNat := Nat.mul_pos (Nat.pos_of_ne_zero hden) (pow2_pos _)
  calc divToEven (num * pow2 (-q).toNat) (den * pow2 q.toNat)
      ≤ divToEven (pow2 53 * (den * pow2 q.toNat)) (den * pow2 q.toNat) :=
        divToEven_mono _ (Nat.le_of_lt hshifted)
    _ = pow2 53 := divToEven_mul_right hpos _

/-- A ratio that is not too large rounds to a finite word. -/
theorem round_lt_infinity {num den t : Nat} (hden : den ≠ 0) (h : num < den * pow2 t)
    (ht : t ≤ 1023) : binary64.round num den < binary64.infinity := by
  unfold round
  split
  · decide
  · next hnum =>
    have hlog := floorLog2_lt hnum h
    have hpower : binary64.minPower = -1074 := rfl
    have hbits : binary64.fractionBits = 52 := rfl
    dsimp only
    rw [hpower, hbits]
    generalize hq : max (floorLog2 num den - (52 : Nat)) (-1074) = q
    have hfraction := @divToEven_le num den hden q (by omega)
    have hfield : (q - -1074).toNat * pow2 52 ≤ 2044 * pow2 52 :=
      Nat.mul_le_mul_right _ (by omega)
    calc min (_ + _) binary64.infinity
        ≤ _ + _ := Nat.min_le_left _ _
      _ ≤ pow2 53 + 2044 * pow2 52 := Nat.add_le_add hfraction hfield
      _ < binary64.infinity := by decide

/-! ### The value of a word -/

/-- A finite word is below the power of two of its exponent field. -/
theorem value_lt {word s : Nat} (h : word < (1076 + s) * pow2 52) :
    (binary64.value word).1 * pow2 (binary64.value word).2.toNat < pow2 (53 + s) := by
  have hfraction : word % pow2 52 < pow2 52 := Nat.mod_lt _ (pow2_pos 52)
  have hspan : pow2 53 = pow2 52 * 2 := pow2_succ 52
  have hfield : word / pow2 52 < 1076 + s := (Nat.div_lt_iff_lt_mul (pow2_pos 52)).mpr h
  have hpower : binary64.minPower = -1074 := rfl
  have hbits : binary64.fractionBits = 52 := rfl
  have hmul : ∀ m q : Nat, m < pow2 53 → q ≤ s → m * pow2 q < pow2 (53 + s) := by
    intro m q hm hq
    rw [pow2_add]
    exact Nat.mul_lt_mul_of_lt_of_le hm (pow2_le_pow2 hq) (pow2_pos s)
  unfold value
  dsimp only
  rw [hpower, hbits]
  split
  · exact hmul _ _ (by dsimp only; omega) (by dsimp only; omega)
  · exact hmul _ _ (by dsimp only; omega) (by dsimp only; omega)

end BinaryFormat

/-! ### Products -/

namespace Double

open BinaryFormat (round_lt_infinity round_le_infinity)

theorem magnitude_ofMagnitude (negative : Bool) {magnitude : Nat} (h : magnitude < pow2 63) :
    (ofMagnitude negative magnitude).magnitude = magnitude := by
  have hsize : pow2 63 + pow2 63 = 2 ^ 64 := by decide
  have hword : (magnitude + if negative then pow2 63 else 0) < 2 ^ 64 := by
    split <;> omega
  rw [ofMagnitude, Double.magnitude, UInt64.toNat_ofNat', Nat.mod_eq_of_lt hword]
  cases negative with
  | false => exact Nat.mod_eq_of_lt h
  | true => rw [if_pos rfl, Nat.add_mod_right, Nat.mod_eq_of_lt h]

theorem magnitude_ofRatio (negative : Bool) (num den : Nat) :
    (ofRatio negative num den).magnitude = binary64.round num den := by
  have hinfinity : binary64.infinity < pow2 63 := by decide
  exact magnitude_ofMagnitude negative
    (Nat.lt_of_le_of_lt (round_le_infinity _ num den) hinfinity)

theorem isFinite_ofRatio (negative : Bool) {num den t : Nat} (hden : den ≠ 0)
    (h : num < den * pow2 t) (ht : t ≤ 1023) : (ofRatio negative num den).isFinite = true := by
  rw [isFinite, magnitude_ofRatio, decide_eq_true_eq]
  exact round_lt_infinity hden h ht

/-- The numerator of the double of a whole number has few bits. -/
theorem ratio_ofNat {n s : Nat} (h : n < pow2 s) : (ofNat n).ratio.1 < pow2 (53 + s) := by
  have hword : (ofNat n).magnitude < (1076 + s) * pow2 52 := by
    rw [ofNat, magnitude_ofRatio]
    by_cases hn : n = 0
    · rw [hn, BinaryFormat.round_zero]
      exact Nat.mul_pos (by omega) (pow2_pos 52)
    · have hbits : n.log2 < s := (Nat.log2_lt hn).mpr h
      have hcut := BinaryFormat.cut_le n
      have hspan : pow2 53 = pow2 52 * 2 := pow2_succ 52
      rw [BinaryFormat.round_eq hn, BinaryFormat.wholeWord]
      calc min (_ + _) binary64.infinity
          ≤ _ + _ := Nat.min_le_left _ _
        _ ≤ pow2 53 + (n.log2 + 1022) * pow2 52 := Nat.add_le_add_right hcut _
        _ = (n.log2 + 1024) * pow2 52 := by
          rw [hspan, Nat.mul_comm _ 2, ← Nat.add_mul,
            show 2 + (n.log2 + 1022) = n.log2 + 1024 by omega]
        _ < (1076 + s) * pow2 52 := Nat.mul_lt_mul_of_pos_right (by omega) (pow2_pos 52)
  exact BinaryFormat.value_lt hword

theorem ratio_den_ne_zero (d : Double) : d.ratio.2 ≠ 0 :=
  Nat.ne_of_gt (pow2_pos _)

/-- The product of the doubles of whole numbers that are not too large is
finite. -/
theorem isFinite_mul {m n s t : Nat} (hm : m < pow2 s) (hn : n < pow2 t) (hst : s + t ≤ 900) :
    ((ofNat m).mul (ofNat n)).isFinite = true := by
  have hden : (ofNat m).ratio.2 * (ofNat n).ratio.2 ≠ 0 :=
    Nat.mul_ne_zero (ratio_den_ne_zero _) (ratio_den_ne_zero _)
  have hnum : (ofNat m).ratio.1 * (ofNat n).ratio.1
      < (ofNat m).ratio.2 * (ofNat n).ratio.2 * pow2 (53 + s + (53 + t)) := by
    calc (ofNat m).ratio.1 * (ofNat n).ratio.1
        < pow2 (53 + s) * pow2 (53 + t) := Nat.mul_lt_mul'' (ratio_ofNat hm) (ratio_ofNat hn)
      _ = pow2 (53 + s + (53 + t)) := (pow2_add _ _).symm
      _ ≤ _ := Nat.le_mul_of_pos_left _ (Nat.pos_of_ne_zero hden)
  exact isFinite_ofRatio _ hden hnum (by omega)

end Double

end CriteriaSql.Number
