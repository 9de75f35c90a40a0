/-
CriteriaSql/Proofs/Json/LongInteger.lean

Integers that 64 bits do not hold, as number literals.

The reader knows no integers beyond 64 bits, yet it takes their literals: the
leading digits become a double, which is multiplied by the power of ten that is
left (`parse?_intText_eq_double`).  The text of a double has a point or an
exponent (`point_or_mark_mem_doubleText`), so it is never that of an integer.

Main result: a number that is read from the text of an integer has that same
text exactly when the integer fits 64 bits (`chars_of_parse?_intText`).
-/
import CriteriaSql.Proofs.Json.NumberLiteral
import CriteriaSql.Proofs.Number.Finite

namespace CriteriaSql

open Number (Double)

/-! ### The value of a long literal -/

namespace NumberLiteral

/-- What is read and what is left over write the same number. -/
theorem foldl_extend (significand : Nat) (ds : List Char) :
    (extend significand ds).2.foldl (fun n c => n * 10 + digitValue c) (extend significand ds).1
      = ds.foldl (fun n c => n * 10 + digitValue c) significand := by
  induction ds generalizing significand with
  | nil => rfl
  | cons c ds ih =>
    rw [extend]
    split
    · exact ih _
    · rfl

theorem length_extend_le (significand : Nat) (ds : List Char) :
    (extend significand ds).2.length ≤ ds.length := by
  induction ds generalizing significand with
  | nil => exact Nat.le_refl _
  | cons c ds ih =>
    rw [extend]
    split
    · exact Nat.le_succ_of_le (ih _)
    · exact Nat.le_refl _

/-- A significand of 64 bits times a power of ten is a double, as long as the
power is not large. -/
theorem exists_scaled {significand n : Nat} (hs : significand < pow2 64) (hn : n ≤ 50) :
    ∃ d, scaled significand n = some d := by
  have hten : pow10 n < pow2 200 := by
    calc pow10 n
        ≤ pow10 50 := Nat.pow_le_pow_right (by decide) hn
      _ < pow2 200 := by decide
  have hfinite := Double.isFinite_mul hs hten (by decide)
  refine ⟨(Double.ofNat significand).mul (powerOfTen n), ?_⟩
  rw [scaled, if_pos (Int.natCast_nonneg n), Int.toNat_natCast, scaleUp, if_pos (by omega)]
  exact if_pos hfinite

/-- A literal of digits alone, not all of which are read, denotes a double. -/
theorem value_of_dropped {ds dropped : List Char} {significand : Nat} (negative : Bool)
    (h : extend 0 ds = (significand, dropped)) (hdropped : dropped ≠ [])
    (hlength : ds.length ≤ 50) : ∃ d, value ⟨negative, ds, [], none⟩ = some (.double d) := by
  have hs : significand < pow2 64 := by
    have hlt := extend_lt (pow2_pos 64) ds
    rwa [h] at hlt
  have hn : dropped.length ≤ 50 := by
    have hle := length_extend_le 0 ds
    rw [h] at hle
    exact Nat.le_trans hle hlength
  obtain ⟨d, hd⟩ := exists_scaled hs hn
  have hempty : dropped.isEmpty = false := by simpa using hdropped
  refine ⟨if negative then d.neg else d, ?_⟩
  simp only [value, h, hempty, Bool.and_false, Bool.false_eq_true, if_false, extend]
  simp [doubleValue, hd]

end NumberLiteral

namespace JsonNumber

open Number (Decimal)

/-- The text of an integer that 64 bits do not hold is read as a double. -/
theorem parse?_intText_eq_double {n : Int} (h : fits n = false) (hn : n.natAbs < pow10 50) :
    ∃ d, parse? (intText n) = some (.double d) := by
  have hlength : (Nat.toDigits 10 n.natAbs).length ≤ 50 :=
    (Nat.length_toDigits_le_iff (by decide) (by decide)).mpr hn
  have hdigits : (Nat.toDigits 10 n.natAbs).foldl (fun n c => n * 10 + digitValue c) 0
      = n.natAbs := natOfDigits_toDigits n.natAbs
  have hspan : pow2 64 = 2 * pow2 63 := by decide
  simp only [fits, Bool.and_eq_false_iff, decide_eq_false_iff_not] at h
  rw [← text_intLiteral, parse?_text (wellFormed_intLiteral n), intLiteral]
  rcases hextend : NumberLiteral.extend 0 (Nat.toDigits 10 n.natAbs) with ⟨significand, dropped⟩
  by_cases hdropped : dropped = []
  · -- all digits are read, so the integer is too small for a signed word
    subst hdropped
    have hall := NumberLiteral.foldl_extend 0 (Nat.toDigits 10 n.natAbs)
    rw [hextend, hdigits] at hall
    have hlt := NumberLiteral.extend_lt (pow2_pos 64) (Nat.toDigits 10 n.natAbs)
    rw [hextend] at hlt
    have hvalue : significand = n.natAbs := hall
    have hneg : n < 0 := by omega
    refine ⟨(Double.ofNat significand).neg, ?_⟩
    rw [NumberLiteral.value_digits hextend, decide_eq_true hneg, if_neg (by decide),
      if_neg (by simp; omega), if_pos rfl]
  · exact NumberLiteral.value_of_dropped _ hextend hdropped hlength

/-! ### The text of a double -/

theorem point_mem_positional (ds : List Char) (places : Int) : '.' ∈ positional ds places := by
  unfold positional
  split <;> simp

theorem mark_mem_scientific (ds : List Char) (exponent : Int) : 'e' ∈ scientific ds exponent := by
  simp [scientific]

/-- The text of a double has a point or an exponent. -/
theorem point_or_mark_mem_doubleText (d : Double) : '.' ∈ doubleText d ∨ 'e' ∈ doubleText d := by
  unfold doubleText
  dsimp only
  split <;> split
  · exact .inl (List.mem_cons_of_mem _ (point_mem_positional _ _))
  · exact .inr (List.mem_cons_of_mem _ (mark_mem_scientific _ _))
  · exact .inl (point_mem_positional _ _)
  · exact .inr (mark_mem_scientific _ _)

/-- No double has the text of an integer. -/
theorem doubleText_ne_intText (d : Double) (n : Int) : doubleText d ≠ intText n := by
  intro h
  rcases point_or_mark_mem_doubleText d with hmem | hmem <;> rw [h] at hmem <;>
    rcases mem_intText hmem with hc | hc <;> cases hc

/-- Of the numbers that are read from the texts of integers, those of 64 bits
keep the text. -/
theorem chars_of_parse?_intText {n : Int} {m : JsonNumber} (h : parse? (intText n) = some m)
    (hn : n.natAbs < pow10 50) : m.chars = intText n ↔ fits n = true := by
  rcases hfits : fits n with - | -
  · obtain ⟨d, hd⟩ := parse?_intText_eq_double hfits hn
    obtain rfl := Option.some.inj (h.symm.trans hd)
    exact iff_of_false (doubleText_ne_intText d n) Bool.false_ne_true
  · obtain rfl := Option.some.inj (h.symm.trans (parse?_intText hfits))
    exact iff_of_true rfl rfl

end JsonNumber

end CriteriaSql
