/-
CriteriaSql/Proofs/Wire/ArrayBinding.lean

Two ways to bind an array: as a list, or as the text of its literal.

The literal of a list reads back as the texts of its items
(`ArrayLiteral.parse?_write`).  So the two ways agree where an item and its text
have the same binary form.  Strings are their own texts, and null stays null.
An integer and its text agree under the integer types, because the text reads
back as the integer (`intOf_intText`), and under the types that look at nothing
but the text.  Booleans, floats, documents and bytes are left out: the boolean
type takes the text `1` but not the number.

Main result: `encode_list_together_literal`.
-/
import CriteriaSql.Proofs.ArrayLiteral.RoundTrip
import CriteriaSql.Proofs.Outcome
import CriteriaSql.Wire.Encode

namespace CriteriaSql

namespace Wire

open ArrayLiteral (asText asTexts)
open BigEndian (fitsSigned)

/-! ### Items and types -/

/-- Null, an integer or a string. -/
inductive Bindable : Json → Prop
  | null : Bindable .null
  | int (n : Int) : Bindable (.num (.int n))
  | str (s : String) : Bindable (.str s)

/-- The types under which an integer and its text stand for the same value. -/
def boundByText : List Scalar :=
  [.int2, .int4, .int8, .oid, .numeric, .uuid, .date, .time, .timestamp, .timestamptz, .text]

/-! ### Scalars -/

/-- An integer and its text are the same integer, or both have too many bits. -/
theorem intOf_intText (n : Int) :
    Together (· = ·) (intOf (.num (.int n))) (intOf (.str (JsonNumber.int n).text)) := by
  have hread : intOfText? (Text.trim (JsonNumber.int n).text.toList) = some n := by
    rw [JsonNumber.text, String.toList_ofList, JsonNumber.trim_chars]
    exact JsonNumber.intOfText?_intText n
  rw [intOf, intOf, hread]
  show Together _ (if _ then _ else _) (if _ then _ else _)
  split
  · exact .succeeded rfl
  · exact .failed _ _

theorem encodeSigned_intText (width : Nat) (n : Int) :
    Together (· = ·) (encodeSigned width (.num (.int n)))
      (encodeSigned width (.str (JsonNumber.int n).text)) := by
  refine (intOf_intText n).bind ?_
  rintro m - rfl
  exact .refl _

theorem encodeUnsigned_intText (width : Nat) (n : Int) :
    Together (· = ·) (encodeUnsigned width (.num (.int n)))
      (encodeUnsigned width (.str (JsonNumber.int n).text)) := by
  refine (intOf_intText n).bind ?_
  rintro m - rfl
  exact .refl _

theorem readText_intText {α : Type} (fault : EncodeFault) (reader : List Char → Option α)
    (n : Int) :
    readText fault reader (.num (.int n))
      = readText fault reader (.str (JsonNumber.int n).text) :=
  rfl

/-- The types that look at the text of a value take an integer for its text. -/
theorem encodeScalar_intText {type : Scalar} (htype : type ∈ boundByText) (n : Int) :
    Together (· = ·) (encodeScalar type (.num (.int n)))
      (encodeScalar type (.str (JsonNumber.int n).text)) := by
  cases type
  case int2 | int4 | int8 => exact encodeSigned_intText _ n
  case oid => exact encodeUnsigned_intText _ n
  case numeric | uuid | date | time | timestamp | timestamptz =>
    rw [encodeScalar, encodeScalar, readText_intText]
    exact .refl _
  case text =>
    rw [encodeScalar, encodeScalar]
    exact .refl _
  all_goals exact absurd htype (by decide)

theorem encode_asText {type : Scalar} (htype : type ∈ boundByText) {v : Json}
    (hv : Bindable v) :
    Together (· = ·) (encode (.scalar type) v) (encode (.scalar type) (asText v)) := by
  cases hv with
  | null => exact .refl _
  | str s => exact .refl _
  | int n =>
    refine (encodeScalar_intText htype n).bind ?_
    rintro bytes - rfl
    exact .refl _

/-! ### Arrays -/

/-- Items and what they read back as make the same array. -/
theorem encodeItems_asText {type : Scalar} (htype : type ∈ boundByText)
    (elementOid lowerBound : Nat) {items : List Json} (hitems : ∀ v ∈ items, Bindable v) :
    Together (· = ·) (encodeItems (encode (.scalar type)) elementOid lowerBound items)
      (encodeItems (encode (.scalar type)) elementOid lowerBound (items.map asText)) := by
  unfold encodeItems
  rw [List.length_map]
  split
  · refine (Together.mapM_map fun v hv => (encode_asText htype (hitems v hv)).bind ?_).bind ?_
    · rintro bytes - rfl
      exact .refl _
    · rintro elements - rfl
      exact .refl _
  · exact .refl _

/-- A list and its literal bind alike: both are refused, or both have the same
bytes. -/
theorem encode_list_together_literal (name : String) (elementOid lowerBound : Nat)
    {type : Scalar} (htype : type ∈ boundByText) {items : List Json}
    (hitems : ∀ v ∈ items, Bindable v) :
    Together (· = ·) (encode (.array name (.scalar type) elementOid lowerBound) (.arr items))
      (encode (.array name (.scalar type) elementOid lowerBound)
        (.str (ArrayLiteral.write items))) := by
  have hread : elementsOf name (.str (ArrayLiteral.write items)) = .ok (items.map asText) := by
    rw [elementsOf, ArrayLiteral.parse?_write, ArrayLiteral.asTexts_eq_map]
  rw [encode, encode, hread]
  · refine (encodeItems_asText htype elementOid lowerBound hitems).bind ?_
    rintro bytes - rfl
    exact .refl _
  · exact Json.noConfusion
  · exact Json.noConfusion

/-- Integers in both forms, a null and the greatest value of the type. -/
theorem encode_list_together_literal_int4 :
    Scalar.int4 ∈ boundByText ∧
      (∀ v ∈ [.num (.int 2147483647), .null, .str " -7 "], Bindable v) ∧
      Together (· = ·)
        (encode (.array "_int4" (.scalar .int4) 23 1)
          (.arr [.num (.int 2147483647), .null, .str " -7 "]))
        (encode (.array "_int4" (.scalar .int4) 23 1)
          (.str (ArrayLiteral.write [.num (.int 2147483647), .null, .str " -7 "]))) := by
  have hitems : ∀ v ∈ [.num (.int 2147483647), .null, .str " -7 "], Bindable v := by
    intro v hv
    simp only [List.mem_cons, List.not_mem_nil, or_false] at hv
    rcases hv with rfl | rfl | rfl <;> constructor
  exact ⟨by decide, hitems, encode_list_together_literal "_int4" 23 1 (by decide) hitems⟩

end Wire

end CriteriaSql
