/-
CriteriaSql/Proofs/Json/ScalarText.lean

The text of a scalar tells it from every other one.

A scalar is null, a boolean, an integer or a string.  Inside a list it is
followed by a comma or by the closing bracket.  Neither stands in the text of a
scalar that is no string; and a string ends where its reader ends it, whatever
follows (`readString_escaped`).  So the text of a scalar and of what comes after
it determines both (`IsScalar.chars_append_inj`), and the text of a list of
scalars determines the list (`itemChars_inj`).
-/
import CriteriaSql.Text.Hex
import Mathlib.Data.List.TakeWhile

namespace CriteriaSql

namespace Json

/-! ### Strings read back -/

/-- A control character reads back from its four digits. -/
theorem hexQuad?_of_lt {n : Nat} (h : n < 32) :
    hexQuad? '0' '0' (hexDigit (n / 16)) (hexDigit (n % 16)) = some n := by
  have high : hexValue? (hexDigit (n / 16)) = some (n / 16) :=
    Text.Hex.hexValue?_hexDigit (by omega)
  have low : hexValue? (hexDigit (n % 16)) = some (n % 16) :=
    Text.Hex.hexValue?_hexDigit (by omega)
  have zero : hexValue? '0' = some 0 := by decide
  rw [hexQuad?, high, low, zero]
  show some ((0 * 16 + 0) * 256 + n / 16 * 16 + n % 16) = some n
  rw [show (0 * 16 + 0) * 256 + n / 16 * 16 + n % 16 = n by omega]

/-- Put a character in front of the units that are read. -/
theorem bind_char_eq_map (c : Char) (cs : List Char) :
    ((readUnits cs).bind fun r => some (StringUnit.char c :: r.1, r.2))
      = (readUnits cs).map fun r => (.char c :: r.1, r.2) :=
  Option.map_eq_bind.symm

/-- A character reads back from the letter of its escape. -/
theorem readUnits_letter {letter c : Char} (hletter : letter ≠ 'u')
    (h : escape? letter = some c) (cs : List Char) :
    readUnits ('\\' :: letter :: cs) = (readUnits cs).map fun r => (.char c :: r.1, r.2) := by
  rw [readUnits, h]
  · exact bind_char_eq_map c cs
  · rintro - - - - - e
    exact absurd e hletter

/-- A character reads back from the way it is written inside a string. -/
theorem readUnits_escaped (c : Char) (cs : List Char) :
    readUnits (escaped c ++ cs) = (readUnits cs).map fun r => (.char c :: r.1, r.2) := by
  unfold escaped
  -- the seven characters that have a letter
  iterate 7
    split
    · next h => subst h; exact readUnits_letter (by decide) rfl cs
  split
  · next h =>
    have hunit : StringUnit.ofNat c.toNat = .char c := by
      rw [StringUnit.ofNat, if_neg (by simp; omega), Char.ofNat_toNat]
    show readUnits ('\\' :: 'u' :: '0' :: '0' :: _ :: _ :: cs) = _
    rw [readUnits, hexQuad?_of_lt h]
    show ((readUnits cs).bind fun r => some (StringUnit.ofNat c.toNat :: r.1, r.2)) = _
    rw [hunit]
    exact bind_char_eq_map c cs
  · next hquote hslash _ _ _ _ _ hcontrol =>
    show readUnits (c :: cs) = _
    rw [readUnits]
    · simp only [hslash, hcontrol]
      exact bind_char_eq_map c cs
    · exact hquote
    · exact fun _ _ _ _ _ e _ => hslash e
    · exact fun _ _ e _ => hslash e

/-- The inside of a string reads back, whatever follows its closing quote. -/
theorem readUnits_flatMap_escaped (s rest : List Char) :
    readUnits (s.flatMap escaped ++ '"' :: rest) = some (s.map .char, rest) := by
  induction s with
  | nil => rfl
  | cons c s ih => rw [List.flatMap_cons, List.append_assoc, readUnits_escaped, ih]; rfl

theorem pairUnits_map_char (s : List Char) : pairUnits (s.map .char) = some s := by
  induction s with
  | nil => rfl
  | cons c s ih => rw [List.map_cons, pairUnits, ih]; rfl

/-- A string ends at its own closing quote. -/
theorem readString_escaped (s rest : List Char) :
    readString (s.flatMap escaped ++ '"' :: rest) = some (s, rest) := by
  rw [readString, readUnits_flatMap_escaped]
  show ((pairUnits (s.map .char)).bind fun s => some (s, rest)) = _
  rw [pairUnits_map_char]
  rfl

theorem stringText_append_inj {s t r r' : List Char}
    (h : stringText s ++ r = stringText t ++ r') : s = t ∧ r = r' := by
  have hs := readString_escaped s r
  have ht := readString_escaped t r'
  simp only [stringText, List.cons_append, List.append_assoc, List.nil_append,
    List.cons.injEq, true_and] at h
  rw [h, ht] at hs
  simpa [eq_comm] using hs

end Json

/-! ### Integers -/

namespace JsonNumber

theorem mem_intText {n : Int} {c : Char} (hc : c ∈ intText n) : c.isDigit ∨ c = '-' := by
  have hdigit : ∀ c ∈ Nat.toDigits 10 n.natAbs, c.isDigit := fun c hc =>
    Nat.isDigit_of_mem_toDigits (by decide) (by decide) hc
  unfold intText at hc
  split at hc
  · rcases List.mem_cons.mp hc with rfl | hc
    · exact .inr rfl
    · exact .inl (hdigit c hc)
  · exact .inl (hdigit c hc)

/-- An integer begins with a digit or a minus sign. -/
theorem intText_ne_cons {n : Int} {c : Char} {cs : List Char}
    (hc : (c.isDigit || c = '-') = false) : intText n ≠ c :: cs := by
  intro h
  rcases mem_intText (h ▸ List.mem_cons_self : c ∈ intText n) with hdigit | rfl
  · rw [hdigit] at hc
    cases hc
  · cases hc

theorem toDigits_inj {n m : Nat} (h : Nat.toDigits 10 n = Nat.toDigits 10 m) : n = m := by
  rw [← Nat.ofDigitChars_toDigits (n := n) (b := 10) (by decide) (by decide), h,
    Nat.ofDigitChars_toDigits (by decide) (by decide)]

theorem intText_ne_nil (n : Int) : intText n ≠ [] := by
  unfold intText
  split
  · exact List.cons_ne_nil _ _
  · exact Nat.toDigits_ne_nil

/-- No digits begin with a minus sign. -/
theorem toDigits_ne_minus_cons (n : Nat) (cs : List Char) : Nat.toDigits 10 n ≠ '-' :: cs := by
  intro h
  have hminus : '-' ∈ Nat.toDigits 10 n := h ▸ List.mem_cons_self
  exact absurd (Nat.isDigit_of_mem_toDigits (by decide) (by decide) hminus) (by decide)

theorem intText_inj {n m : Int} (h : intText n = intText m) : n = m := by
  unfold intText at h
  split at h <;> split at h
  · have := toDigits_inj (List.cons.inj h).2
    omega
  · exact absurd h.symm (toDigits_ne_minus_cons _ _)
  · exact absurd h (toDigits_ne_minus_cons _ _)
  · have := toDigits_inj h
    omega

end JsonNumber

namespace Json

/-! ### Scalars -/

/-- Null, a boolean, an integer or a string. -/
inductive IsScalar : Json → Prop
  | null : IsScalar .null
  | bool (b : Bool) : IsScalar (.bool b)
  | int (n : Int) : IsScalar (.num (.int n))
  | str (s : String) : IsScalar (.str s)

/-- A character of the text of a scalar that is no string. -/
def isBare (c : Char) : Bool :=
  c ≠ ',' && c ≠ ']' && c ≠ '"'

/-- Nothing, or what follows an item of a list. -/
def Ends (r : List Char) : Prop :=
  ∀ c ∈ r.head?, c = ',' ∨ c = ']'

theorem Ends.takeWhile_isBare {r : List Char} (hr : Ends r) : r.takeWhile isBare = [] := by
  rcases r with - | ⟨c, r⟩
  · rfl
  · have hc : isBare c = false := by
      rcases hr c rfl with rfl | rfl <;> rfl
    rw [List.takeWhile_cons, hc]
    rfl

/-- Only a string has characters in its text that end a scalar. -/
theorem IsScalar.eq_str_or_isBare {v : Json} (hv : v.IsScalar) :
    (∃ s, v = .str s) ∨ v.chars ≠ [] ∧ ∀ c ∈ v.chars, isBare c := by
  cases hv with
  | null => exact .inr (by simp [chars, isBare])
  | bool b => exact .inr (by cases b <;> simp [chars, isBare])
  | int n =>
    refine .inr ⟨JsonNumber.intText_ne_nil n, fun c hc => ?_⟩
    rcases JsonNumber.mem_intText hc with hc | rfl
    · have : c ≠ ',' ∧ c ≠ ']' ∧ c ≠ '"' := by
        refine ⟨?_, ?_, ?_⟩ <;> rintro rfl <;> exact absurd hc (by decide)
      simpa [isBare, and_assoc] using this
    · rfl
  | str s => exact .inl ⟨s, rfl⟩

theorem IsScalar.chars_inj {v w : Json} (hv : v.IsScalar) (hw : w.IsScalar)
    (h : v.chars = w.chars) : v = w := by
  -- the first character tells the kinds apart
  rcases hv with - | (_ | _) | n | s <;> rcases hw with - | (_ | _) | m | t
  case int.int => rw [JsonNumber.intText_inj h]
  case str.str =>
    have hst := (stringText_append_inj (congrArg (· ++ []) h)).1
    rw [String.toList_injective hst]
  case int.null | int.str | int.bool.true | int.bool.false =>
    exact absurd h (JsonNumber.intText_ne_cons rfl)
  case null.int | str.int | bool.true.int | bool.false.int =>
    exact absurd h.symm (JsonNumber.intText_ne_cons rfl)
  all_goals simp_all [chars, stringText]

/-- A scalar and what follows it can be told from the text of both. -/
theorem IsScalar.chars_append_inj {v w : Json} {r r' : List Char} (hv : v.IsScalar)
    (hw : w.IsScalar) (hr : Ends r) (hr' : Ends r') (h : v.chars ++ r = w.chars ++ r') :
    v = w ∧ r = r' := by
  have htake := congrArg (List.takeWhile isBare) h
  rcases hv.eq_str_or_isBare with ⟨s, rfl⟩ | ⟨hv0, hvbare⟩ <;>
    rcases hw.eq_str_or_isBare with ⟨t, rfl⟩ | ⟨hw0, hwbare⟩
  · obtain ⟨hst, rfl⟩ := stringText_append_inj h
    exact ⟨congrArg Json.str (String.toList_injective hst), rfl⟩
  · rw [List.takeWhile_append_of_pos hwbare, hr'.takeWhile_isBare, List.append_nil] at htake
    exact absurd htake.symm hw0
  · rw [List.takeWhile_append_of_pos hvbare, hr.takeWhile_isBare, List.append_nil] at htake
    exact absurd htake hv0
  · rw [List.takeWhile_append_of_pos hvbare, List.takeWhile_append_of_pos hwbare,
      hr.takeWhile_isBare, hr'.takeWhile_isBare, List.append_nil, List.append_nil] at htake
    refine ⟨hv.chars_inj hw htake, ?_⟩
    rw [htake] at h
    exact List.append_cancel_left h

/-! ### Lists of scalars -/

theorem itemChars_cons (v : Json) (vs : List Json) :
    itemChars (v :: vs) = v.chars ++ (if vs = [] then [']'] else ',' :: itemChars vs) := by
  rcases vs with - | ⟨w, vs⟩
  · rw [itemChars]
    rfl
  · rw [itemChars]
    rfl

/-- The text of a scalar begins with a character that is no bracket. -/
theorem IsScalar.exists_chars_eq_cons {v : Json} (hv : v.IsScalar) :
    ∃ c cs, v.chars = c :: cs ∧ c ≠ '[' ∧ c ≠ ']' := by
  cases hv with
  | null => exact ⟨_, _, rfl, by decide, by decide⟩
  | bool b => cases b <;> exact ⟨_, _, rfl, by decide, by decide⟩
  | str s => exact ⟨_, _, rfl, by decide, by decide⟩
  | int n =>
    rcases h : JsonNumber.intText n with - | ⟨c, cs⟩
    · exact absurd h (JsonNumber.intText_ne_nil n)
    · refine ⟨c, cs, h, ?_, ?_⟩ <;> rintro rfl <;> exact JsonNumber.intText_ne_cons rfl h

/-- What follows an item of a list begins with a comma or a bracket. -/
theorem ends_itemChars (vs : List Json) : Ends (if vs = [] then [']'] else ',' :: itemChars vs) := by
  intro c hc
  split at hc
  · exact .inr (Option.some.inj hc).symm
  · exact .inl (Option.some.inj hc).symm

/-- The text of a list of scalars tells it from every other one. -/
theorem itemChars_inj {vs ws : List Json} (hvs : ∀ v ∈ vs, v.IsScalar)
    (hws : ∀ w ∈ ws, w.IsScalar) (h : itemChars vs = itemChars ws) : vs = ws := by
  have hnil : ∀ {u : Json} {us : List Json}, u.IsScalar → itemChars (u :: us) ≠ itemChars [] := by
    intro u us hu h
    obtain ⟨c, cs, hcons, -, hc⟩ := hu.exists_chars_eq_cons
    rw [itemChars_cons, hcons, itemChars] at h
    exact hc (List.cons.inj h).1
  induction vs generalizing ws with
  | nil =>
    rcases ws with - | ⟨w, ws⟩
    · rfl
    · exact absurd h.symm (hnil (hws w List.mem_cons_self))
  | cons v vs ih =>
    rcases ws with - | ⟨w, ws⟩
    · exact absurd h (hnil (hvs v List.mem_cons_self))
    rw [itemChars_cons, itemChars_cons] at h
    obtain ⟨rfl, hrest⟩ := (hvs v List.mem_cons_self).chars_append_inj
      (hws w List.mem_cons_self) (ends_itemChars vs) (ends_itemChars ws) h
    -- both lists end here, or both go on
    split at hrest <;> split at hrest
    · next hvs hws => rw [hvs, hws]
    · cases hrest
    · cases hrest
    · rw [ih (fun u hu => hvs u (List.mem_cons_of_mem v hu))
        (fun u hu => hws u (List.mem_cons_of_mem v hu)) (List.cons.inj hrest).2]

end Json

end CriteriaSql
