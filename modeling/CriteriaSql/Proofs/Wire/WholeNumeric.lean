/-
CriteriaSql/Proofs/Wire/WholeNumeric.lean

Whole numbers in decimal columns.

A decimal column sends groups of four digits and the weight of the first: the
value is the sum of the groups, each times its power of ten thousand
(`Form.value`).  Where that is a whole number below `2 ^ 96`, the groups of the
fraction are zeros, and the reader finds the number exactly, with no places
(`decode?_whole`).  What it becomes as JSON is read from its digits: an integer
when 64 bits hold it, and otherwise a double, whose digits are others.

Main result: `decode_whole`.
-/
import CriteriaSql.Proofs.Json.LongInteger
import CriteriaSql.Wire.Decode
import Mathlib.Algebra.Order.Field.Power
import Mathlib.Tactic.Linarith
import Mathlib.Tactic.Positivity
import Mathlib.Tactic.Ring

namespace CriteriaSql.Wire.Numeric

open BigEndian (span write writeInt read readInt fitsSigned)

/-! ### The value of groups -/

/-- The value of groups of four digits, the first of which has the given
weight. -/
def groupsValue (weight : Int) : List Nat → ℚ
  | [] => 0
  | group :: groups => group * 10000 ^ weight + groupsValue (weight - 1) groups

/-- What is sent for a decimal number: the groups, none of them zero in front,
the weight of the first, the sign and the number of places that are shown. -/
structure Form where
  groups : List Nat
  weight : Int
  negative : Bool
  shown : Nat
  group_lt : ∀ g ∈ groups, g < 10000
  lead_ne_zero : groups.head? ≠ some 0
  weight_of_nil : groups = [] → weight = 0
  count_fits : groups.length < span 2
  weight_fits : fitsSigned 2 weight = true
  shown_fits : shown < span 2

/-- The bytes that are sent. -/
def Form.bytes (f : Form) : List UInt8 :=
  write 2 f.groups.length ++ writeInt 2 f.weight ++ write 2 (signWord f.negative)
    ++ write 2 f.shown ++ f.groups.flatMap (write 2)

/-- The number that is sent. -/
def Form.value (f : Form) : ℚ :=
  if f.negative then -groupsValue f.weight f.groups else groupsValue f.weight f.groups

theorem groupsValue_append (weight : Int) (as bs : List Nat) :
    groupsValue weight (as ++ bs)
      = groupsValue weight as + groupsValue (weight - as.length) bs := by
  induction as generalizing weight with
  | nil => simp [groupsValue]
  | cons a as ih =>
    rw [List.cons_append, groupsValue, groupsValue, ih, List.length_cons, Nat.cast_succ,
      show weight - 1 - (as.length : Int) = weight - (as.length + 1) by omega]
    ring

theorem groupsValue_nonneg (weight : Int) (groups : List Nat) : 0 ≤ groupsValue weight groups := by
  induction groups generalizing weight with
  | nil => exact le_refl _
  | cons g groups ih =>
    rw [groupsValue]
    have := ih (weight - 1)
    positivity

/-- Groups of four digits are below one more group. -/
theorem groupsValue_lt {groups : List Nat} (h : ∀ g ∈ groups, g < 10000) (weight : Int) :
    groupsValue weight groups < 10000 ^ (weight + 1) := by
  induction groups generalizing weight with
  | nil =>
    rw [groupsValue]
    positivity
  | cons g groups ih =>
    have hrest := ih (fun g hg => h g (List.mem_cons_of_mem _ hg)) (weight - 1)
    have hg : (g : ℚ) + 1 ≤ 10000 := by exact_mod_cast h g List.mem_cons_self
    have hpos : (0 : ℚ) < 10000 ^ weight := by positivity
    rw [Int.sub_add_cancel] at hrest
    rw [groupsValue, zpow_add_one₀ (by norm_num)]
    nlinarith

/-- Groups that add up to nothing are zeros. -/
theorem eq_zero_of_groupsValue {weight : Int} {groups : List Nat}
    (h : groupsValue weight groups = 0) : ∀ g ∈ groups, g = 0 := by
  induction groups generalizing weight with
  | nil => exact fun g hg => absurd hg List.not_mem_nil
  | cons g groups ih =>
    rw [groupsValue] at h
    have hpos : (0 : ℚ) < 10000 ^ weight := by positivity
    have hrest := groupsValue_nonneg (weight - 1) groups
    have hg : (0 : ℚ) ≤ g * 10000 ^ weight := by positivity
    have hzero : (g : ℚ) * 10000 ^ weight = 0 := by linarith
    intro g' hg'
    rcases List.mem_cons.mp hg' with rfl | hg'
    · rcases mul_eq_zero.mp hzero with hg | hpow
      · exact_mod_cast hg
      · exact absurd hpow hpos.ne'
    · exact ih (by linarith) g' hg'

/-! ### The whole part -/

/-- The number that groups write. -/
def wholeFrom (n : Nat) (groups : List Nat) : Nat :=
  groups.foldl (fun n group => n * 10000 + group) n

theorem le_wholeFrom (n : Nat) (groups : List Nat) : n ≤ wholeFrom n groups := by
  induction groups generalizing n with
  | nil => exact Nat.le_refl n
  | cons g groups ih => exact Nat.le_trans (by omega) (ih (n * 10000 + g))

theorem wholeFrom_replicate (n k : Nat) : wholeFrom n (List.replicate k 0) = n * 10000 ^ k := by
  induction k generalizing n with
  | zero => exact (Nat.mul_one n).symm
  | succ k ih =>
    show wholeFrom (n * 10000 + 0) (List.replicate k 0) = _
    rw [ih, Nat.add_zero, Nat.mul_assoc, Nat.pow_succ, Nat.mul_comm 10000]

/-- A whole number that is within the bound is read, as what is read before it
is no larger. -/
theorem wholeOf_eq {n : Nat} {groups : List Nat} (h : wholeFrom n groups < FixedDecimal.bound) :
    wholeOf n groups = some (wholeFrom n groups) := by
  induction groups generalizing n with
  | nil => rfl
  | cons g groups ih =>
    have hnext : n * 10000 + g < FixedDecimal.bound :=
      Nat.lt_of_le_of_lt (le_wholeFrom _ groups) h
    rw [wholeOf]
    exact (if_pos hnext).trans (ih h)

theorem wholeFrom_eq (n : Nat) (weight : Int) (groups : List Nat) :
    (n : ℚ) * 10000 ^ (weight + 1) + groupsValue weight groups
      = wholeFrom n groups * 10000 ^ (weight + 1 - groups.length) := by
  induction groups generalizing n weight with
  | nil => simp [groupsValue, wholeFrom]
  | cons g groups ih =>
    have hstep := ih (n * 10000 + g) (weight - 1)
    rw [Int.sub_add_cancel] at hstep
    show _ = (wholeFrom (n * 10000 + g) groups : ℚ) * _
    rw [groupsValue, List.length_cons, Nat.cast_succ,
      show weight + 1 - ((groups.length : Int) + 1) = weight - groups.length by omega, ← hstep,
      zpow_add_one₀ (by norm_num)]
    push_cast
    ring

/-! ### Whole values -/

/-- A whole number that is not negative and below one is zero. -/
theorem eq_zero_of_lt_one {x : ℚ} {n : Int} (h : x = n) (hnonneg : 0 ≤ x) (hlt : x < 1) :
    n = 0 := by
  subst h
  have hn : 0 ≤ n := by exact_mod_cast hnonneg
  have hn' : n < 1 := by exact_mod_cast hlt
  omega

namespace Form

variable {f : Form} {n : Int}

/-- Where the number that is sent is whole, so are its groups. -/
theorem groupsValue_eq (h : f.value = n) : groupsValue f.weight f.groups = n.natAbs := by
  have hnonneg := groupsValue_nonneg f.weight f.groups
  have habs : |(n : ℚ)| = groupsValue f.weight f.groups := by
    rw [← h, value]
    split
    · rw [abs_neg, abs_of_nonneg hnonneg]
    · exact abs_of_nonneg hnonneg
  rw [← habs, Nat.cast_natAbs, Int.cast_abs]

theorem eq_of_value (h : f.value = n) : n = if f.negative then -(n.natAbs : Int) else n.natAbs := by
  have hgroups := groupsValue_eq h
  rw [value, hgroups] at h
  generalize n.natAbs = m at h ⊢
  split at h
  · next hneg =>
    rw [if_pos hneg]
    exact_mod_cast h.symm
  · next hneg =>
    rw [if_neg hneg]
    exact_mod_cast h.symm

/-- A number without whole part that is not zero is not whole. -/
theorem weight_nonneg (h : f.value = n) : 0 ≤ f.weight := by
  -- without a whole part the groups are below one, so all of them are zeros
  by_contra hweight
  have hgroups := groupsValue_eq h
  have hlt : groupsValue f.weight f.groups < 1 := by
    calc groupsValue f.weight f.groups
        < 10000 ^ (f.weight + 1) := groupsValue_lt f.group_lt _
      _ ≤ 10000 ^ (0 : Int) := zpow_le_zpow_right₀ (by norm_num) (by omega)
      _ = 1 := zpow_zero _
  have hzero : groupsValue f.weight f.groups = 0 := by
    generalize n.natAbs = m at hgroups
    have hm : ((m : Int) : ℚ) = groupsValue f.weight f.groups := by exact_mod_cast hgroups.symm
    rw [← hm, eq_zero_of_lt_one hm.symm (groupsValue_nonneg _ _) hlt, Int.cast_zero]
  have hall := eq_zero_of_groupsValue hzero
  -- but the first group is not zero
  rcases hcons : f.groups with - | ⟨g, groups⟩
  · exact hweight (by rw [f.weight_of_nil hcons])
  · have hg : g = 0 := hall g (hcons ▸ List.mem_cons_self)
    exact f.lead_ne_zero (by rw [hcons, hg]; rfl)

variable (f) in
/-- How many groups the whole part has. -/
def wholeCount : Nat :=
  (f.weight + 1).toNat

variable (f) in
/-- The groups of the whole part that are sent. -/
def whole : List Nat :=
  f.groups.take f.wholeCount

variable (f) in
/-- The groups of the fraction. -/
def fraction : List Nat :=
  f.groups.drop f.wholeCount

theorem groupsValue_split (hweight : 0 ≤ f.weight) :
    groupsValue f.weight f.groups
      = (wholeFrom 0 f.whole * 10000 ^ (f.wholeCount - f.groups.length) : Nat)
        + groupsValue (f.weight - f.whole.length) f.fraction := by
  have hwhole := wholeFrom_eq 0 f.weight f.whole
  have hexponent : f.weight + 1 - (f.whole.length : Int)
      = ((f.wholeCount - f.groups.length : Nat) : Int) := by
    rw [whole, List.length_take, wholeCount]
    omega
  rw [hexponent, zpow_natCast, Nat.cast_zero, zero_mul, zero_add] at hwhole
  have hsplit := groupsValue_append f.weight f.whole f.fraction
  rw [whole, fraction, List.take_append_drop] at hsplit
  rw [hsplit, ← whole, ← fraction, hwhole]
  push_cast
  rfl

/-- The fraction is below one. -/
theorem groupsValue_fraction_lt (hweight : 0 ≤ f.weight) :
    groupsValue (f.weight - f.whole.length) f.fraction < 1 := by
  by_cases hcount : f.groups.length ≤ f.wholeCount
  · rw [fraction, List.drop_eq_nil_of_le hcount, groupsValue]
    exact zero_lt_one
  · have hlength : f.weight - (f.whole.length : Int) = -1 := by
      rw [whole, List.length_take]
      unfold wholeCount at hcount ⊢
      omega
    have hgroups : ∀ g ∈ f.fraction, g < 10000 :=
      fun g hg => f.group_lt g (List.mem_of_mem_drop hg)
    have hlt := groupsValue_lt hgroups (f.weight - f.whole.length)
    rw [hlength] at hlt ⊢
    simpa using hlt

/-- Where the number is whole, its fraction is zero. -/
theorem fraction_eq_zero (h : f.value = n) :
    n.natAbs = wholeFrom 0 f.whole * 10000 ^ (f.wholeCount - f.groups.length)
      ∧ ∀ g ∈ f.fraction, g = 0 := by
  have hsplit := groupsValue_split (weight_nonneg h)
  rw [groupsValue_eq h] at hsplit
  have hlt := groupsValue_fraction_lt (weight_nonneg h)
  generalize wholeFrom 0 f.whole * 10000 ^ (f.wholeCount - f.groups.length) = w at hsplit ⊢
  generalize n.natAbs = m at hsplit ⊢
  have hdiff : groupsValue (f.weight - f.whole.length) f.fraction
      = ((m : Int) - (w : Int) : Int) := by
    push_cast
    linarith
  have hzero := eq_zero_of_lt_one hdiff (groupsValue_nonneg _ _) hlt
  refine ⟨by omega, eq_zero_of_groupsValue (hdiff.trans ?_)⟩
  rw [hzero]
  rfl

/-- With groups the whole part is not zero. -/
theorem wholeFrom_pos (hweight : 0 ≤ f.weight) (hgroups : f.groups ≠ []) :
    0 < wholeFrom 0 f.whole := by
  obtain ⟨g, groups, hcons⟩ := List.exists_cons_of_ne_nil hgroups
  have hg : g ≠ 0 := by
    rintro rfl
    exact f.lead_ne_zero (by rw [hcons]; rfl)
  have hcount : f.wholeCount = f.weight.toNat + 1 := by
    rw [wholeCount]
    omega
  rw [whole, hcons, hcount, List.take_succ_cons]
  have hle := le_wholeFrom (0 * 10000 + g) (groups.take f.weight.toNat)
  rw [Nat.zero_mul, Nat.zero_add] at hle
  show 0 < wholeFrom (0 * 10000 + g) _
  rw [Nat.zero_mul, Nat.zero_add]
  omega

end Form

/-! ### Reading -/

theorem takeWords_flatMap {words : List Nat} (h : ∀ w ∈ words, w < span 2) (rest : List UInt8) :
    takeWords words.length (words.flatMap (write 2) ++ rest) = some (words, rest) := by
  induction words with
  | nil => rfl
  | cons w words ih =>
    have hread : read (write 2 w) = w := by
      rw [BigEndian.read_write, Nat.mod_eq_of_lt (h w List.mem_cons_self)]
    have hrest := ih fun w hw => h w (List.mem_cons_of_mem _ hw)
    rw [List.flatMap_cons, List.append_assoc]
    show (takeWords words.length (words.flatMap (write 2) ++ rest) >>= fun r =>
      some (read (write 2 w) :: r.1, r.2)) = _
    rw [hrest, hread]
    rfl

/-- Too many groups of zeros are none behind a number within the bound. -/
theorem padWhole_eq {n k : Nat} (hn : n ≠ 0 ∨ k < 10)
    (h : n * 10000 ^ k < FixedDecimal.bound) : padWhole n k = some (n * 10000 ^ k) := by
  have hk : ¬10 ≤ k := by
    intro hk
    have hpos : 1 ≤ n := by omega
    have hpow : 10000 ^ 10 ≤ 10000 ^ k := Nat.pow_le_pow_right (by decide) hk
    have hle : 1 * 10000 ^ k ≤ n * 10000 ^ k := Nat.mul_le_mul_right _ hpos
    have hbound : FixedDecimal.bound < 10000 ^ 10 := by decide
    omega
  rw [padWhole, if_neg hk, wholeOf_eq (by rwa [wholeFrom_replicate]), wholeFrom_replicate]

theorem mantissa_fractionTerm_zero (power : Nat) : (fractionTerm power 0).mantissa = 0 := by
  unfold fractionTerm
  split
  · rfl
  · rw [if_neg (by omega)]

/-- Groups of zeros add nothing to a number that is not zero. -/
theorem addFraction_zeros {d : FixedDecimal} (hd : d.mantissa ≠ 0) {groups : List Nat}
    (h : ∀ g ∈ groups, g = 0) (power : Nat) : addFraction d power groups = some d := by
  induction groups generalizing power with
  | nil => rfl
  | cons g groups ih =>
    obtain rfl := h g List.mem_cons_self
    have hsum : d.sum (fractionTerm power 0) = some d := by
      rw [FixedDecimal.sum, if_neg hd, if_pos (mantissa_fractionTerm_zero power)]
    rw [addFraction, hsum]
    exact ih (fun g hg => h g (List.mem_cons_of_mem _ hg)) (power + 4)

namespace Form

variable {f : Form} {n : Int}

/-- The groups of a whole number are read as its digits. -/
theorem ofGroups_whole (h : f.value = n) (hbound : n.natAbs < FixedDecimal.bound) :
    ofGroups f.weight f.groups = some ⟨false, n.natAbs, 0⟩ := by
  obtain ⟨hwhole, hfraction⟩ := fraction_eq_zero h
  have hle : wholeFrom 0 f.whole ≤ n.natAbs := by
    rw [hwhole]
    exact Nat.le_mul_of_pos_right _ (Nat.pow_pos (by decide))
  have hread : wholeOf 0 f.whole = some (wholeFrom 0 f.whole) :=
    wholeOf_eq (Nat.lt_of_le_of_lt hle hbound)
  have hpad : padWhole (wholeFrom 0 f.whole) (f.wholeCount - f.groups.length) = some n.natAbs := by
    rw [hwhole]
    refine padWhole_eq ?_ (hwhole ▸ hbound)
    by_cases hnil : f.groups = []
    · refine .inr ?_
      rw [wholeCount, f.weight_of_nil hnil]
      omega
    · exact .inl (Nat.ne_of_gt (wholeFrom_pos (weight_nonneg h) hnil))
  have hadd : ∀ power, addFraction ⟨false, n.natAbs, 0⟩ power f.fraction
      = some ⟨false, n.natAbs, 0⟩ := by
    intro power
    by_cases hnil : f.groups = []
    · rw [fraction, hnil, List.drop_nil]
      rfl
    · have hpos := wholeFrom_pos (weight_nonneg h) hnil
      exact addFraction_zeros (by dsimp only; omega) hfraction power
  rw [ofGroups]
  show (wholeOf 0 f.whole >>= _) = _
  rw [hread]
  show (padWhole (wholeFrom 0 f.whole) (f.wholeCount - f.groups.length) >>= _) = _
  rw [hpad]
  exact hadd _

variable (f) in
/-- The words in front of the groups. -/
def header : List Nat :=
  [f.groups.length, (f.weight % span 2).toNat, signWord f.negative, f.shown]

theorem bytes_eq : f.bytes = f.header.flatMap (write 2) ++ f.groups.flatMap (write 2) := by
  simp [bytes, header, writeInt]

theorem lt_of_mem_header {w : Nat} (hw : w ∈ f.header) : w < span 2 := by
  have hsign : signWord f.negative < span 2 := by
    cases f.negative <;> decide
  have hweight : (f.weight % span 2).toNat < span 2 := by
    have hlt := Int.emod_lt_of_pos f.weight (show (0 : Int) < span 2 by decide)
    omega
  simp only [header, List.mem_cons, List.not_mem_nil, or_false] at hw
  rcases hw with rfl | rfl | rfl | rfl
  · exact f.count_fits
  · exact hweight
  · exact hsign
  · exact f.shown_fits

/-- A whole number is read exactly, with no places. -/
theorem decode?_whole (h : f.value = n) (hbound : n.natAbs < FixedDecimal.bound) :
    decode? f.bytes = some ⟨f.negative, n.natAbs, 0⟩ := by
  have hheader := takeWords_flatMap (fun _ => lt_of_mem_header (f := f))
    (f.groups.flatMap (write 2))
  have hgroups := takeWords_flatMap (fun g hg => Nat.lt_trans (f.group_lt g hg)
    (show 10000 < span 2 by decide)) []
  rw [List.append_nil] at hgroups
  have hweight : readInt (write 2 (f.weight % span 2).toNat) = f.weight :=
    BigEndian.readInt_writeInt f.weight_fits
  have hsign : ∀ negative, signWord negative < leastSpecial
      ∧ decide (signWord negative = signWord true) = negative := by decide
  rw [bytes_eq, decode?]
  show (takeWords f.header.length _ >>= _) = _
  rw [hheader, Option.bind_eq_bind, Option.bind_some]
  show (takeWords f.groups.length _ >>= _) = _
  rw [hgroups, Option.bind_eq_bind, Option.bind_some]
  show (ofGroups (readInt (write 2 (f.weight % span 2).toNat)) f.groups >>= _) = _
  rw [hweight, ofGroups_whole h hbound, Option.bind_eq_bind, Option.bind_some,
    if_pos (hsign f.negative).1, (hsign f.negative).2]
  rfl

end Form

/-! ### JSON -/

/-- The text of a number without places is a sign or none, and digits. -/
theorem text_whole (negative : Bool) (m : Nat) :
    FixedDecimal.text ⟨negative, m, 0⟩
      = (if negative then ['-'] else []) ++ Nat.toDigits 10 m := by
  have hpos : 0 < (Nat.toDigits 10 m).length := Nat.length_toDigits_pos
  have hzeros : 0 + 1 - (Nat.toDigits 10 m).length = 0 := by omega
  rw [FixedDecimal.text]
  dsimp only
  rw [hzeros, List.replicate_zero, List.nil_append, Nat.sub_zero, List.take_length,
    List.drop_length]
  exact List.append_nil _

/-- The digits of a whole number are those of the integer. -/
theorem text_normalized_whole (negative : Bool) (m : Nat) :
    (FixedDecimal.normalized ⟨negative, m, 0⟩).text
      = JsonNumber.intText (if negative then -(m : Int) else m) := by
  by_cases hm : m = 0
  · subst hm
    cases negative <;> rfl
  · have hnormal : FixedDecimal.normalized ⟨negative, m, 0⟩ = ⟨negative, m, 0⟩ := by
      rw [FixedDecimal.normalized]
      exact if_neg hm
    rw [hnormal, text_whole, JsonNumber.intText]
    cases negative with
    | false =>
      rw [if_neg Bool.false_ne_true, if_neg Bool.false_ne_true, if_neg (by omega),
        Int.natAbs_natCast]
      rfl
    | true =>
      rw [if_pos rfl, if_pos rfl, if_pos (by omega), Int.natAbs_neg, Int.natAbs_natCast]
      rfl

/-- The value writes the digits of an integer, as a number or as a text. -/
def Writes (n : Int) : Json → Prop
  | .num m => m.chars = JsonNumber.intText n
  | .str s => s.toList = JsonNumber.intText n
  | _ => False

/-- What becomes of a whole number is read from its digits. -/
theorem decode_eq_num {f : Form} {n : Int} (h : f.value = n)
    (hbound : n.natAbs < FixedDecimal.bound) :
    ∃ m, decode (.scalar .numeric) (some f.bytes) = some (.num m)
      ∧ JsonNumber.parse? (JsonNumber.intText n) = some m := by
  have htext : (FixedDecimal.normalized ⟨f.negative, n.natAbs, 0⟩).text
      = JsonNumber.intText n := by
    rw [text_normalized_whole, ← Form.eq_of_value h]
  obtain ⟨m, hm⟩ : ∃ m, JsonNumber.parse? (JsonNumber.intText n) = some m := by
    rcases hfits : JsonNumber.fits n with - | -
    · have hlarge : FixedDecimal.bound < pow10 50 := by decide
      obtain ⟨d, hd⟩ := JsonNumber.parse?_intText_eq_double hfits (Nat.lt_trans hbound hlarge)
      exact ⟨_, hd⟩
    · exact ⟨_, JsonNumber.parse?_intText hfits⟩
  refine ⟨m, ?_, hm⟩
  rw [decode, decodeScalar, Form.decode?_whole h hbound, Option.map_some, ofFixed, htext, hm]

/-- A decimal column with a whole number below `2 ^ 96` becomes a number.  Where
64 bits hold the integer, it is that integer, with all of its digits; where they
do not, it is a double, which writes other digits. -/
theorem decode_whole (f : Form) {n : Int} (h : f.value = n) (hbound : n.natAbs < pow2 96) :
    ∃ v, decode (.scalar .numeric) (some f.bytes) = some v
      ∧ (JsonNumber.fits n = true → v = .ofInt n)
      ∧ (JsonNumber.fits n = false → ∃ d, v = .num (.double d))
      ∧ (Writes n v ↔ JsonNumber.fits n = true) := by
  obtain ⟨m, hdecode, hm⟩ := decode_eq_num h hbound
  have hlarge : n.natAbs < pow10 50 := Nat.lt_trans hbound (by decide)
  refine ⟨.num m, hdecode, ?_, ?_, JsonNumber.chars_of_parse?_intText hm hlarge⟩
  · intro hfits
    rw [JsonNumber.parse?_intText hfits] at hm
    rw [← Option.some.inj hm]
    rfl
  · intro hfits
    obtain ⟨d, hd⟩ := JsonNumber.parse?_intText_eq_double hfits hlarge
    exact ⟨d, congrArg Json.num (Option.some.inj (hm.symm.trans hd))⟩

/-- The form of `10 ^ 16`, with two places shown. -/
def tenQuadrillion : Form where
  groups := [1]
  weight := 4
  negative := false
  shown := 2
  group_lt := by decide
  lead_ne_zero := by decide
  weight_of_nil := by decide
  count_fits := by decide
  weight_fits := by decide
  shown_fits := by decide

/-- The form of `2 ^ 64`, which is above all that 64 bits hold. -/
def aboveWords : Form where
  groups := [1844, 6744, 737, 955, 1616]
  weight := 4
  negative := false
  shown := 0
  group_lt := by decide
  lead_ne_zero := by decide
  weight_of_nil := by decide
  count_fits := by decide
  weight_fits := by decide
  shown_fits := by decide

theorem value_aboveWords : aboveWords.value = (18446744073709551616 : Int) := by
  norm_num [Form.value, aboveWords, groupsValue]

/-- Ten quadrillion is an integer of 64 bits, and keeps its digits. -/
theorem decode_whole_quadrillions :
    ∃ v, decode (.scalar .numeric) (some [0, 1, 0, 4, 0, 0, 0, 2, 0, 1]) = some v
      ∧ v = .ofInt 10000000000000000 ∧ Writes 10000000000000000 v := by
  have hvalue : tenQuadrillion.value = (10000000000000000 : Int) := by
    norm_num [Form.value, tenQuadrillion, groupsValue]
  obtain ⟨v, hdecode, hint, -, hwrites⟩ := decode_whole tenQuadrillion hvalue (by decide)
  exact ⟨v, hdecode, hint (by decide), hwrites.mpr (by decide)⟩

/-- Not every whole number keeps its digits. -/
theorem not_forall_writes :
    ¬ ∀ (f : Form) (n : Int), f.value = n → n.natAbs < pow2 96 →
      ∃ v, decode (.scalar .numeric) (some f.bytes) = some v ∧ Writes n v := by
  intro hall
  obtain ⟨v, hdecode, hwrites⟩ := hall aboveWords _ value_aboveWords (by decide)
  obtain ⟨m, hdecode', hm⟩ := decode_eq_num value_aboveWords (by decide)
  obtain rfl := Option.some.inj (hdecode.symm.trans hdecode')
  have hfits := (JsonNumber.chars_of_parse?_intText hm (by decide)).mp hwrites
  exact absurd hfits (by decide)

end CriteriaSql.Wire.Numeric
