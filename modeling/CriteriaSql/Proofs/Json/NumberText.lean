/-
CriteriaSql/Proofs/Json/NumberText.lean

The text of a number.

The text of an integer and that of a double are not empty and consist of digits,
the point, signs and the letter of the exponent (`isNumberChar_of_mem_chars`).
The text of an integer reads back as the integer (`intOfText?_intText`).
-/
import CriteriaSql.Proofs.Json.ScalarText
import CriteriaSql.Text.Blank
import CriteriaSql.Text.Digits

namespace CriteriaSql

/-- A character of the text of a number. -/
def isNumberChar (c : Char) : Bool :=
  c.isDigit || c = '.' || c = '-' || c = '+' || c = 'e'

theorem toNat_of_isDigit {c : Char} (h : c.isDigit) : 48 ≤ c.toNat ∧ c.toNat ≤ 57 := by
  simpa [Char.isDigit, UInt32.le_iff_toNat_le] using h

theorem isBlank_of_isNumberChar {c : Char} (h : isNumberChar c) : Text.isBlank c = false := by
  simp only [isNumberChar, Bool.or_eq_true, decide_eq_true_eq] at h
  rcases h with (((h | rfl) | rfl) | rfl) | rfl
  · have hrange := toNat_of_isDigit h
    simp only [Text.isBlank, Bool.or_eq_false_iff, Bool.and_eq_false_iff,
      decide_eq_false_iff_not, beq_eq_false_iff_ne]
    omega
  all_goals rfl

theorem ne_of_isNumberChar {c c' : Char} (h : isNumberChar c) (h' : isNumberChar c' = false) :
    c ≠ c' := by
  rintro rfl
  rw [h] at h'
  cases h'

namespace JsonNumber

/-! ### Characters -/

theorem isNumberChar_of_isDigit {c : Char} (h : c.isDigit) : isNumberChar c := by
  simp [isNumberChar, h]

theorem isNumberChar_of_mem_toDigits {n : Nat} {c : Char} (h : c ∈ Nat.toDigits 10 n) :
    isNumberChar c :=
  isNumberChar_of_isDigit (Nat.isDigit_of_mem_toDigits (by decide) (by decide) h)

theorem isNumberChar_of_mem_intText {n : Int} {c : Char} (h : c ∈ intText n) :
    isNumberChar c := by
  rcases mem_intText h with hc | rfl
  · exact isNumberChar_of_isDigit hc
  · rfl

theorem isNumberChar_of_mem_signed {n : Int} {c : Char} (h : c ∈ signed n) :
    isNumberChar c := by
  rcases List.mem_cons.mp h with rfl | h
  · split <;> rfl
  · exact isNumberChar_of_mem_toDigits h

theorem isNumberChar_of_mem_positional {ds : List Char} (hds : ∀ c ∈ ds, isNumberChar c)
    {places : Int} {c : Char} (h : c ∈ positional ds places) : isNumberChar c := by
  have hzero : ∀ n, c ∈ List.replicate n '0' → isNumberChar c := by
    intro n hc
    rw [List.eq_of_mem_replicate hc]
    rfl
  unfold positional at h
  split at h
  · simp only [List.mem_cons, List.mem_append] at h
    rcases h with rfl | rfl | h | h
    · rfl
    · rfl
    · exact hzero _ h
    · exact hds c h
  · simp only [List.append_assoc, List.mem_append, List.mem_cons] at h
    rcases h with h | h | rfl | h
    · exact hds c (List.mem_of_mem_take h)
    · exact hzero _ h
    · rfl
    · split at h
      · rw [List.mem_singleton.mp h]
        rfl
      · exact hds c (List.mem_of_mem_drop h)

theorem isNumberChar_of_mem_scientific {ds : List Char} (hds : ∀ c ∈ ds, isNumberChar c)
    {exponent : Int} {c : Char} (h : c ∈ scientific ds exponent) : isNumberChar c := by
  simp only [scientific, List.append_assoc, List.mem_append, List.mem_cons] at h
  rcases h with h | h | rfl | h
  · exact hds c (List.mem_of_mem_take h)
  · split at h
    · cases h
    · rcases List.mem_cons.mp h with rfl | h
      · rfl
      · exact hds c (List.mem_of_mem_drop h)
  · rfl
  · exact isNumberChar_of_mem_signed h

theorem isNumberChar_of_mem_chars {n : JsonNumber} {c : Char} (h : c ∈ n.chars) :
    isNumberChar c := by
  rcases n with n | d
  · exact isNumberChar_of_mem_intText h
  · have hds : ∀ c ∈ Nat.toDigits 10 (Number.Decimal.shortest d).digits, isNumberChar c :=
      fun c hc => isNumberChar_of_mem_toDigits hc
    unfold chars doubleText at h
    dsimp only at h
    split at h
    · rcases List.mem_cons.mp h with rfl | h
      · rfl
      · split at h
        · exact isNumberChar_of_mem_positional hds h
        · exact isNumberChar_of_mem_scientific hds h
    · split at h
      · exact isNumberChar_of_mem_positional hds h
      · exact isNumberChar_of_mem_scientific hds h

theorem chars_ne_nil (n : JsonNumber) : n.chars ≠ [] := by
  rcases n with n | d
  · exact intText_ne_nil n
  · have hbody : ∀ ds places, positional ds places ≠ [] := by
      intro ds places
      unfold positional
      split <;> simp
    unfold chars doubleText
    dsimp only
    split
    · exact List.cons_ne_nil _ _
    · split
      · exact hbody _ _
      · simp [scientific]

/-- The text of a number begins with one of these characters. -/
theorem exists_chars_eq_cons (n : JsonNumber) :
    ∃ c t, n.chars = c :: t ∧ isNumberChar c := by
  obtain ⟨c, t, h⟩ := List.exists_cons_of_ne_nil (chars_ne_nil n)
  exact ⟨c, t, h, isNumberChar_of_mem_chars (h ▸ List.mem_cons_self)⟩

/-! ### Integers read back -/

theorem natOfDigits_toDigits (n : Nat) : natOfDigits (Nat.toDigits 10 n) = n := by
  have hfold : natOfDigits (Nat.toDigits 10 n) = Nat.ofDigitChars 10 (Nat.toDigits 10 n) 0 := by
    unfold natOfDigits Nat.ofDigitChars
    congr 1
    funext m c
    rw [Nat.mul_comm]
    rfl
  rw [hfold, Nat.ofDigitChars_toDigits (by decide) (by decide)]

theorem all_isDigit_toDigits (n : Nat) : (Nat.toDigits 10 n).all CriteriaSql.isDigit :=
  List.all_eq_true.mpr fun _ hc => Nat.isDigit_of_mem_toDigits (by decide) (by decide) hc

/-- Digits have no sign in front. -/
theorem spanSign_of_all_isDigit {ds : List Char} (h : ds.all CriteriaSql.isDigit) :
    spanSign ds = (false, ds) := by
  unfold spanSign
  split
  · cases h
  · cases h
  · rfl

/-- A sign and the digits of a number write that number with its sign. -/
theorem intOfText?_of_spanSign {cs : List Char} {negative : Bool} {n : Nat}
    (h : spanSign cs = (negative, Nat.toDigits 10 n)) :
    intOfText? cs = some (if negative then -(n : Int) else n) := by
  have hne : (Nat.toDigits 10 n).isEmpty = false := by simp
  rw [intOfText?, h]
  dsimp only
  rw [hne, all_isDigit_toDigits, natOfDigits_toDigits]
  rfl

theorem intOfText?_intText (n : Int) : intOfText? (intText n) = some n := by
  unfold intText
  split
  · next hneg =>
    have hsign : spanSign ('-' :: Nat.toDigits 10 n.natAbs)
        = (true, Nat.toDigits 10 n.natAbs) := rfl
    rw [intOfText?_of_spanSign hsign, if_pos rfl, Option.some.injEq]
    omega
  · next hneg =>
    rw [intOfText?_of_spanSign (spanSign_of_all_isDigit (all_isDigit_toDigits _)),
      if_neg Bool.false_ne_true, Option.some.injEq]
    omega

/-- There are no blanks in the text of a number. -/
theorem trim_chars (n : JsonNumber) : Text.trim n.chars = n.chars :=
  Text.trim_eq_self_of_all fun _ hc => isBlank_of_isNumberChar (isNumberChar_of_mem_chars hc)

end JsonNumber

end CriteriaSql
