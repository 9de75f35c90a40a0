/-
CriteriaSql/Proofs/Json/NumberLiteral.lean

The text of a number is a number literal.

A well-formed literal, written out (`text`), is what the scanner takes from the
front of a text, as long as what follows does not go on as a number
(`scan_text`).  The text of every number is such a literal (`isLiteral_chars`):
that of a double because the shortest digits of a double other than zero write a
number other than zero, so they do not begin with the digit zero.

Main results: a number is read alike whatever follows it (`read_chars`), an
integer of 64 bits reads back from its text (`parse?_intText`), and the reader
returns no other integers (`fits_of_value`).
-/
import CriteriaSql.Json.NumberLiteral
import CriteriaSql.Json.Printer
import CriteriaSql.Proofs.Json.NumberText

namespace CriteriaSql

/-- Nothing, or a character with which no number goes on. -/
def EndsNumber (r : List Char) : Prop :=
  ∀ c ∈ r.head?, isDigit c = false ∧ c ≠ '.' ∧ c ≠ 'e' ∧ c ≠ 'E'

theorem endsNumber_nil : EndsNumber [] := by
  intro c hc
  cases hc

namespace NumberLiteral

/-! ### Literals written out -/

/-- A fraction behind its point, or nothing. -/
def fractionText (fraction : List Char) : List Char :=
  if fraction = [] then [] else '.' :: fraction

/-- An exponent behind its letter and its sign, or nothing. -/
def exponentText : Option (Bool × List Char) → List Char
  | none => []
  | some (negative, ds) => 'e' :: (if negative then '-' else '+') :: ds

/-- The text of a literal. -/
def text (l : NumberLiteral) : List Char :=
  (if l.negative then ['-'] else [])
    ++ (l.whole ++ (fractionText l.fraction ++ exponentText l.exponent))

/-- The parts of a literal are digits, and the whole part is a zero alone or
does not begin with a zero. -/
structure WellFormed (l : NumberLiteral) : Prop where
  whole_digits : ∀ c ∈ l.whole, isDigit c
  whole_lead : l.whole = ['0'] ∨ ∃ c t, l.whole = c :: t ∧ c ≠ '0'
  fraction_digits : ∀ c ∈ l.fraction, isDigit c
  exponent_digits : ∀ e ∈ l.exponent, e.2 ≠ [] ∧ ∀ c ∈ e.2, isDigit c

/-! ### Scanning -/

/-- Nothing, or a character that is no digit. -/
def EndsDigits (r : List Char) : Prop :=
  ∀ c ∈ r.head?, isDigit c = false

theorem scanWhole_append {ds r : List Char} (hds : ∀ c ∈ ds, isDigit c)
    (hlead : ds = ['0'] ∨ ∃ c t, ds = c :: t ∧ c ≠ '0') (hr : EndsDigits r) :
    scanWhole (ds ++ r) = some (ds, r) := by
  rcases hlead with rfl | ⟨c, t, rfl, hc⟩
  · rcases r with - | ⟨d, r⟩
    · rfl
    · show (if isDigit d then none else some (['0'], d :: r)) = _
      rw [hr d rfl]
      rfl
  · have hspan := spanDigits_append hds hr
    rw [List.cons_append] at hspan ⊢
    rw [scanWhole, hspan]
    · rfl
    · exact fun _ e => hc (List.cons.inj e).1

theorem scanFraction_append {ds r : List Char} (hds : ∀ c ∈ ds, isDigit c)
    (hr : EndsDigits r) (hpoint : ∀ c ∈ r.head?, c ≠ '.') :
    scanFraction (fractionText ds ++ r) = some (ds, r) := by
  unfold fractionText
  split
  · next h =>
    subst h
    rcases r with - | ⟨c, r⟩
    · rfl
    · rw [List.nil_append, scanFraction]
      exact fun _ e => hpoint c rfl (List.cons.inj e).1
  · next h =>
    rw [List.cons_append, scanFraction, spanDigits_append hds hr]
    rcases ds with - | ⟨d, ds⟩
    · exact absurd rfl h
    · rfl

theorem scanExponent_append {e : Option (Bool × List Char)} {r : List Char}
    (he : ∀ p ∈ e, p.2 ≠ [] ∧ ∀ c ∈ p.2, isDigit c) (hr : EndsNumber r) :
    scanExponent (exponentText e ++ r) = some (e, r) := by
  rcases e with - | ⟨negative, ds⟩
  · rcases r with - | ⟨c, r⟩
    · rfl
    · obtain ⟨-, -, hlower, hupper⟩ := hr c rfl
      show scanExponent (c :: r) = _
      rw [scanExponent, if_neg (by simp [hlower, hupper])]
  · obtain ⟨hne, hds⟩ := he _ rfl
    have hspan := spanDigits_append hds fun c hc => (hr c hc).1
    have hsign : spanSign ((if negative then '-' else '+') :: (ds ++ r)) = (negative, ds ++ r) := by
      cases negative <;> rfl
    show scanExponent ('e' :: (if negative then '-' else '+') :: (ds ++ r)) = _
    rw [scanExponent, if_pos (by decide), hsign]
    dsimp only
    rw [hspan]
    rcases ds with - | ⟨d, ds⟩
    · exact absurd rfl hne
    · rfl

/-- Behind the whole part and the fraction stands no digit and no point. -/
theorem of_mem_head?_exponentText {e : Option (Bool × List Char)} {r : List Char}
    (hr : EndsNumber r) :
    ∀ c ∈ (exponentText e ++ r).head?, isDigit c = false ∧ c ≠ '.' := by
  rcases e with - | ⟨negative, ds⟩
  · exact fun c hc => ⟨(hr c hc).1, (hr c hc).2.1⟩
  · rintro c hc
    obtain rfl := Option.some.inj hc
    decide

theorem endsDigits_fractionText (ds : List Char) {r : List Char} (hr : EndsDigits r) :
    EndsDigits (fractionText ds ++ r) := by
  unfold fractionText
  split
  · exact hr
  · rintro c hc
    obtain rfl := Option.some.inj hc
    rfl

/-- Read a literal behind its sign. -/
def scanUnsigned (negative : Bool) (cs : List Char) : Option (NumberLiteral × List Char) := do
  let (whole, cs) ← scanWhole cs
  let (fraction, cs) ← scanFraction cs
  let (exponent, cs) ← scanExponent cs
  return (⟨negative, whole, fraction, exponent⟩, cs)

theorem scan_minus (cs : List Char) : scan ('-' :: cs) = scanUnsigned true cs :=
  rfl

theorem scan_of_ne {c : Char} (hc : c ≠ '-') (cs : List Char) :
    scan (c :: cs) = scanUnsigned false (c :: cs) := by
  rw [scan]
  · rfl
  · exact fun _ e => hc (List.cons.inj e).1

theorem scanUnsigned_append {l : NumberLiteral} (hl : l.WellFormed) {r : List Char}
    (hr : EndsNumber r) :
    scanUnsigned l.negative
      (l.whole ++ (fractionText l.fraction ++ (exponentText l.exponent ++ r))) = some (l, r) := by
  have hbehind := of_mem_head?_exponentText (e := l.exponent) hr
  have hdigits : EndsDigits (exponentText l.exponent ++ r) := fun c hc => (hbehind c hc).1
  rw [scanUnsigned,
    scanWhole_append hl.whole_digits hl.whole_lead (endsDigits_fractionText l.fraction hdigits)]
  simp only [Option.bind_eq_bind, Option.bind_some]
  rw [scanFraction_append hl.fraction_digits hdigits fun c hc => (hbehind c hc).2]
  simp only [Option.bind_some]
  rw [scanExponent_append hl.exponent_digits hr]
  rfl

/-- A literal is taken whole from the front of a text. -/
theorem scan_text {l : NumberLiteral} (hl : l.WellFormed) {r : List Char} (hr : EndsNumber r) :
    scan (l.text ++ r) = some (l, r) := by
  have hunsigned := scanUnsigned_append hl hr
  simp only [text, List.append_assoc]
  rcases hnegative : l.negative with - | -
  · obtain ⟨c, t, hc⟩ : ∃ c t, l.whole = c :: t := by
      rcases hl.whole_lead with h | ⟨c, t, h, -⟩
      · exact ⟨_, _, h⟩
      · exact ⟨c, t, h⟩
    have hminus : c ≠ '-' := by
      rintro rfl
      exact absurd (hl.whole_digits '-' (hc ▸ List.mem_cons_self)) (by decide)
    rw [hnegative, hc] at hunsigned
    rw [hc, if_neg Bool.false_ne_true, List.nil_append, List.cons_append, scan_of_ne hminus]
    exact hunsigned
  · rw [hnegative] at hunsigned
    rw [if_pos rfl, List.singleton_append, scan_minus]
    exact hunsigned

end NumberLiteral

/-! ### Digits of a number -/

namespace JsonNumber

open NumberLiteral (fractionText exponentText)
open Number (Double Decimal binary64 BinaryFormat)

/-- The digits of a number other than zero do not begin with a zero. -/
theorem toDigits_eq_cons {n : Nat} (hn : n ≠ 0) :
    ∃ c t, Nat.toDigits 10 n = c :: t ∧ c ≠ '0' := by
  induction n using Nat.strongRecOn with
  | ind n ih =>
    by_cases hlt : n < 10
    · have hdigit : ∀ m ∈ List.range 10, m ≠ 0 → Nat.digitChar m ≠ '0' := by decide
      exact ⟨_, _, Nat.toDigits_of_lt_base hlt, hdigit n (List.mem_range.mpr hlt) hn⟩
    · have hpos : 0 < n / 10 := by omega
      obtain ⟨c, t, hdigits, hc⟩ := ih (n / 10) (by omega) (by omega)
      have happend := Nat.toDigits_append_toDigits (b := 10) (n := n / 10) (d := n % 10)
        (by decide) hpos (by omega)
      rw [Nat.div_add_mod, hdigits, List.cons_append] at happend
      exact ⟨c, _, happend.symm, hc⟩

theorem isDigit_of_mem_toDigits {n : Nat} {c : Char} (h : c ∈ Nat.toDigits 10 n) :
    CriteriaSql.isDigit c :=
  Nat.isDigit_of_mem_toDigits (by decide) (by decide) h

/-! ### The shortest digits of a double -/

theorem digits_trimZeros {d : Decimal} (h : d.digits ≠ 0) : d.trimZeros.digits ≠ 0 := by
  fun_induction Decimal.trimZeros d with
  | case1 d hd ih => exact ih (by have := hd.1; have := hd.2; simp only; omega)
  | case2 d hd => exact h

/-- Zero does not lie in the interval of the reals that round to a number other
than zero. -/
theorem digits_onGrid? {m : Nat} (hm : m ≠ 0) {q : Int} {narrow : Bool} {k : Int} {r : Decimal}
    (h : Decimal.onGrid? m q narrow k = some r) : r.digits ≠ 0 := by
  unfold Decimal.onGrid? at h
  extract_lets quarter unit value low high inside d rest at h
  have hlow : 0 < low := by
    refine Nat.mul_pos ?_ (Nat.mul_pos (pow2_pos _) (pow10_pos _))
    split <;> omega
  have hd : inside (d * unit) = true → d ≠ 0 := by
    intro hinside hzero
    have hle : low ≤ d * unit := by
      simp only [inside] at hinside
      split at hinside
      · simp only [Bool.and_eq_true, decide_eq_true_eq] at hinside
        exact hinside.1
      · simp only [Bool.and_eq_true, decide_eq_true_eq] at hinside
        exact hinside.1.le
    rw [hzero, Nat.zero_mul] at hle
    omega
  split at h
  · next hin _ =>
    split at h
    · rw [← Option.some.inj h]
      exact hd hin
    · rw [← Option.some.inj h]
      exact Nat.succ_ne_zero d
  · next hin _ =>
    rw [← Option.some.inj h]
    exact hd hin
  · rw [← Option.some.inj h]
    exact Nat.succ_ne_zero d
  · cases h

/-- The significand of a double other than zero is not zero. -/
theorem significand_ne_zero {d : Double} (hd : d.isZero = false) :
    (binary64.value d.magnitude).1 ≠ 0 := by
  have hmagnitude : d.magnitude ≠ 0 := by simpa [Double.isZero] using hd
  unfold BinaryFormat.value
  dsimp only
  split
  · next hfield =>
    intro hfraction
    have h := Nat.div_add_mod d.magnitude (pow2 binary64.fractionBits)
    rw [hfield, show d.magnitude % _ = 0 from hfraction] at h
    exact hmagnitude h.symm
  · have := pow2_pos binary64.fractionBits
    simp only
    omega

theorem digits_shortest {d : Double} (hd : d.isZero = false) :
    (Decimal.shortest d).digits ≠ 0 := by
  have hm := significand_ne_zero hd
  unfold Decimal.shortest
  rw [if_neg (by simp [hd])]
  dsimp only
  split
  · next r hr =>
    obtain ⟨n, -, hn⟩ := List.exists_of_findSome?_eq_some hr
    exact digits_trimZeros (digits_onGrid? hm hn)
  · exact Nat.mul_ne_zero hm (pow2_pos _).ne'

/-! ### Numbers as literals -/

/-- The text is that of a well-formed literal. -/
def IsLiteral (cs : List Char) : Prop :=
  ∃ l : NumberLiteral, l.WellFormed ∧ l.text = cs

/-- Digits that may stand in front of a point. -/
theorem lead_toDigits (n : Nat) :
    Nat.toDigits 10 n = ['0'] ∨ ∃ c t, Nat.toDigits 10 n = c :: t ∧ c ≠ '0' := by
  by_cases hn : n = 0
  · subst hn
    exact .inl rfl
  · exact .inr (toDigits_eq_cons hn)

/-- The literal of an integer: a sign or none, and digits. -/
def intLiteral (n : Int) : NumberLiteral :=
  ⟨n < 0, Nat.toDigits 10 n.natAbs, [], none⟩

theorem wellFormed_intLiteral (n : Int) : (intLiteral n).WellFormed where
  whole_digits _ hc := isDigit_of_mem_toDigits hc
  whole_lead := lead_toDigits _
  fraction_digits _ hc := absurd hc List.not_mem_nil
  exponent_digits _ he := by cases he

theorem text_intLiteral (n : Int) : (intLiteral n).text = intText n := by
  unfold intText
  split
  · next h => simp [intLiteral, NumberLiteral.text, h, fractionText, exponentText]
  · next h => simp [intLiteral, NumberLiteral.text, h, fractionText, exponentText]

theorem isDigit_of_mem_replicate {n : Nat} {c : Char} (h : c ∈ List.replicate n '0') :
    CriteriaSql.isDigit c := by
  rw [List.eq_of_mem_replicate h]
  rfl

variable {ds : List Char} (hds : ∀ c ∈ ds, CriteriaSql.isDigit c) (negative : Bool)

include hds

/-- Digits around a point are a literal: those of zero with the point behind the
zero, and those of other numbers with the point anywhere. -/
theorem isLiteral_positional {places : Int}
    (hlead : (ds = ['0'] ∧ places = 1) ∨ ∃ c t, ds = c :: t ∧ c ≠ '0') :
    IsLiteral ((if negative then ['-'] else []) ++ positional ds places) := by
  have hne : ds ≠ [] := by
    rcases hlead with ⟨rfl, -⟩ | ⟨c, t, rfl, -⟩ <;> exact List.cons_ne_nil _ _
  unfold positional
  by_cases hplaces : places ≤ 0
  · rw [if_pos hplaces]
    refine ⟨⟨negative, ['0'], List.replicate (-places).toNat '0' ++ ds, none⟩, ?_, ?_⟩
    · refine ⟨fun c hc => ?_, .inl rfl, fun c hc => ?_, fun e he => by cases he⟩
      · rw [List.mem_singleton.mp hc]
        rfl
      · rcases List.mem_append.mp hc with hc | hc
        · exact isDigit_of_mem_replicate hc
        · exact hds c hc
    · simp [NumberLiteral.text, fractionText, exponentText, hne]
  · rw [if_neg hplaces]
    refine ⟨⟨negative, ds.take places.toNat ++ List.replicate (places.toNat - ds.length) '0',
      if (ds.drop places.toNat).isEmpty then ['0'] else ds.drop places.toNat, none⟩, ?_, ?_⟩
    · refine ⟨fun c hc => ?_, ?_, fun c hc => ?_, fun e he => by cases he⟩
      · rcases List.mem_append.mp hc with hc | hc
        · exact hds c (List.mem_of_mem_take hc)
        · exact isDigit_of_mem_replicate hc
      · rcases hlead with ⟨rfl, rfl⟩ | ⟨c, t, rfl, hc⟩
        · exact .inl rfl
        · obtain ⟨k, hk⟩ : ∃ k, places.toNat = k + 1 := ⟨places.toNat - 1, by omega⟩
          exact .inr ⟨c, _, by rw [hk]; rfl, hc⟩
      · dsimp only at hc
        split at hc
        · rw [List.mem_singleton.mp hc]
          rfl
        · exact hds c (List.mem_of_mem_drop hc)
    · have hfraction : (if (ds.drop places.toNat).isEmpty then ['0'] else ds.drop places.toNat)
          ≠ [] := by
        split
        · exact List.cons_ne_nil _ _
        · next h => simpa using h
      simp only [NumberLiteral.text, fractionText, exponentText, if_neg hfraction,
        List.append_nil, List.append_assoc]

/-- A digit other than zero, those behind a point, and an exponent are a
literal. -/
theorem isLiteral_scientific (hlead : ∃ c t, ds = c :: t ∧ c ≠ '0') (exponent : Int) :
    IsLiteral ((if negative then ['-'] else []) ++ scientific ds exponent) := by
  obtain ⟨c, t, rfl, hc⟩ := hlead
  refine ⟨⟨negative, [c], t, some (exponent < 0, Nat.toDigits 10 exponent.natAbs)⟩, ?_, ?_⟩
  · refine ⟨fun d hd => ?_, .inr ⟨c, [], rfl, hc⟩, fun d hd => hds d (List.mem_cons_of_mem c hd),
      fun e he => ?_⟩
    · exact hds d (List.mem_singleton.mp hd ▸ List.mem_cons_self)
    · obtain rfl := Option.some.inj he
      exact ⟨Nat.toDigits_ne_nil, fun d hd => isDigit_of_mem_toDigits hd⟩
  · rcases t with - | ⟨d, t⟩
    · simp [NumberLiteral.text, fractionText, exponentText, scientific, signed]
    · simp [NumberLiteral.text, fractionText, exponentText, scientific, signed]

omit hds

/-- The text of every number is that of a literal. -/
theorem isLiteral_chars (n : JsonNumber) : IsLiteral n.chars := by
  rcases n with n | d
  · exact ⟨intLiteral n, wellFormed_intLiteral n, text_intLiteral n⟩
  · have hds : ∀ c ∈ Nat.toDigits 10 (Decimal.shortest d).digits, CriteriaSql.isDigit c :=
      fun c hc => isDigit_of_mem_toDigits hc
    have hsign : ∀ body : List Char, (if d.isNegative then '-' :: body else body)
        = (if d.isNegative then ['-'] else []) ++ body := by
      intro body
      split <;> rfl
    show IsLiteral (doubleText d)
    unfold doubleText
    dsimp only
    rw [hsign]
    -- the layout does not matter, but that zero is never in exponent notation
    generalize hlead : (Decimal.shortest d).exponent
      + (Nat.toDigits 10 (Decimal.shortest d).digits).length - 1 = lead
    by_cases hzero : d.isZero
    · -- zero has the digit zero and the exponent zero, so its point is behind that digit
      have hshortest : Decimal.shortest d = ⟨0, 0⟩ := by
        rw [Decimal.shortest, if_pos hzero]
      rw [hzero, Bool.true_or, if_pos rfl]
      refine isLiteral_positional hds _ (.inl ?_)
      rw [← hlead, hshortest]
      decide
    · have hcons := toDigits_eq_cons (digits_shortest (Bool.not_eq_true _ ▸ hzero))
      by_cases hlayout : (d.isZero || (layout.leastPositional ≤ lead
          && lead < layout.beyondPositional)) = true
      · rw [if_pos hlayout]
        exact isLiteral_positional hds _ (.inr hcons)
      · rw [if_neg hlayout]
        exact isLiteral_scientific hds _ hcons _

/-! ### Numbers read back -/

/-- A literal is read as its value, whatever follows it. -/
theorem read_text {l : NumberLiteral} (hl : l.WellFormed) {r : List Char} (hr : EndsNumber r) :
    JsonNumber.read (l.text ++ r) = l.value.map fun n => (n, r) := by
  rw [JsonNumber.read, NumberLiteral.scan_text hl hr]
  exact Option.map_eq_bind.symm

theorem parse?_text {l : NumberLiteral} (hl : l.WellFormed) : parse? l.text = l.value := by
  have h := read_text hl endsNumber_nil
  rw [List.append_nil] at h
  rw [parse?, h]
  rcases l.value with - | n <;> rfl

/-- A number is read alike whatever follows it. -/
theorem read_chars (n : JsonNumber) {r : List Char} (hr : EndsNumber r) :
    JsonNumber.read (n.chars ++ r) = (parse? n.chars).map fun m => (m, r) := by
  obtain ⟨l, hl, hn⟩ := isLiteral_chars n
  rw [← hn, read_text hl hr, parse?_text hl]

end JsonNumber

/-! ### Integers -/

namespace NumberLiteral

open Number (Double)

/-- The significand that is read from digits has no more than 64 bits. -/
theorem extend_lt {significand : Nat} (h : significand < pow2 64) (ds : List Char) :
    (extend significand ds).1 < pow2 64 := by
  induction ds generalizing significand with
  | nil => exact h
  | cons c ds ih =>
    rw [extend]
    split
    · next hnext => exact ih hnext
    · exact h

/-- Digits add to a significand. -/
theorem le_foldl_digits (significand : Nat) (ds : List Char) :
    significand ≤ ds.foldl (fun n c => n * 10 + digitValue c) significand := by
  induction ds generalizing significand with
  | nil => exact Nat.le_refl _
  | cons c ds ih =>
    refine Nat.le_trans ?_ (ih (significand * 10 + digitValue c))
    omega

/-- Digits that write a number of 64 bits are all read. -/
theorem extend_eq {significand : Nat} {ds : List Char}
    (h : ds.foldl (fun n c => n * 10 + digitValue c) significand < pow2 64) :
    extend significand ds
      = (ds.foldl (fun n c => n * 10 + digitValue c) significand, []) := by
  induction ds generalizing significand with
  | nil => rfl
  | cons c ds ih =>
    have hnext : significand * 10 + digitValue c < pow2 64 :=
      Nat.lt_of_le_of_lt (le_foldl_digits _ ds) h
    rw [extend, if_pos hnext, ih h]
    rfl

/-- The integers that a literal can denote have 64 bits. -/
theorem fits_of_value {l : NumberLiteral} {n : Int} (h : l.value = some (.int n)) :
    JsonNumber.fits n = true := by
  have hlt : (extend 0 l.whole).1 < pow2 64 := extend_lt (pow2_pos 64) l.whole
  unfold value at h
  dsimp only at h
  split at h
  · split at h
    · obtain rfl := JsonNumber.int.inj (Option.some.inj h)
      simp only [JsonNumber.fits, Bool.and_eq_true, decide_eq_true_eq]
      omega
    · split at h
      · next hmin =>
        obtain rfl := JsonNumber.int.inj (Option.some.inj h)
        simp only [Bool.and_eq_true, decide_eq_true_eq] at hmin
        have hpos := pow2_pos 64
        simp only [JsonNumber.fits, Bool.and_eq_true, decide_eq_true_eq]
        omega
      · cases h
  · obtain ⟨d, -, hd⟩ := Option.map_eq_some_iff.mp h
    cases hd

/-- The value of a literal of digits alone, all of which are read. -/
theorem value_digits {ds : List Char} {significand : Nat}
    (h : extend 0 ds = (significand, [])) (negative : Bool) :
    value ⟨negative, ds, [], none⟩
      = if !negative then some (.int significand)
        else if significand ≠ 0 && significand ≤ pow2 63 then some (.int (-significand))
        else some (.double (if negative then (Double.ofNat significand).neg
          else Double.ofNat significand)) := by
  simp only [value, h]
  exact if_pos rfl

/-- A literal of digits alone denotes the integer that they write. -/
theorem value_intLiteral {n : Int} (h : JsonNumber.fits n = true) :
    (JsonNumber.intLiteral n).value = some (.int n) := by
  simp only [JsonNumber.fits, Bool.and_eq_true, decide_eq_true_eq] at h
  have hspan : pow2 64 = 2 * pow2 63 := by decide
  have hdigits : (Nat.toDigits 10 n.natAbs).foldl (fun n c => n * 10 + digitValue c) 0
      = n.natAbs := JsonNumber.natOfDigits_toDigits n.natAbs
  have hextend : extend 0 (Nat.toDigits 10 n.natAbs) = (n.natAbs, []) := by
    rw [extend_eq (by rw [hdigits]; omega), hdigits]
  rw [JsonNumber.intLiteral, value_digits hextend]
  by_cases hneg : n < 0
  · have hmin : n.natAbs ≠ 0 ∧ n.natAbs ≤ pow2 63 := by omega
    rw [if_neg (by simp [hneg]), if_pos (by simp [hmin]), Option.some.injEq, JsonNumber.int.injEq]
    omega
  · rw [if_pos (by simp [hneg]), Option.some.injEq, JsonNumber.int.injEq]
    omega

end NumberLiteral

/-- An integer of 64 bits reads back from its text. -/
theorem JsonNumber.parse?_intText {n : Int} (h : fits n = true) :
    parse? (intText n) = some (.int n) := by
  rw [← text_intLiteral, parse?_text (wellFormed_intLiteral n), NumberLiteral.value_intLiteral h]

end CriteriaSql
