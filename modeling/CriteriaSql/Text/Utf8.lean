/-
CriteriaSql/Text/Utf8.lean

Text as UTF-8 bytes.  A text can be cut before a byte only where that byte is a
boundary: the first of a character, or the end of the text.

Main statements: the bytes of a text read back as the text (`decode?_encode`),
and from every byte a boundary is found by going back
(`isBoundary_lastBoundary`).
-/

namespace CriteriaSql.Text.Utf8

/-- The bytes of a text. -/
def encode (s : String) : List UInt8 :=
  s.toUTF8.data.toList

/-- The text that bytes are the encoding of, if there is one. -/
def decode? (bytes : List UInt8) : Option String :=
  String.fromUTF8? ⟨bytes.toArray⟩

theorem decode?_encode (s : String) : decode? (encode s) = some s := by
  have h : (⟨(encode s).toArray⟩ : ByteArray) = s.toByteArray := by
    simp [encode, String.toUTF8]
  unfold decode? String.fromUTF8?
  rw [h, dif_pos s.isValidUTF8]
  rfl

/-! ### Boundaries -/

/-- The byte is the first of a character, or the end of the text. -/
def IsBoundary (s : String) (byte : Nat) : Prop :=
  (String.Pos.Raw.mk byte).IsValid s

instance (s : String) (byte : Nat) : Decidable (IsBoundary s byte) :=
  inferInstanceAs (Decidable ((String.Pos.Raw.mk byte).IsValid s))

/-- From a byte back to the first boundary. -/
def lastBoundary (s : String) : Nat → Nat
  | 0 => 0
  | byte + 1 => if IsBoundary s (byte + 1) then byte + 1 else lastBoundary s byte

theorem isBoundary_lastBoundary (s : String) (byte : Nat) : IsBoundary s (lastBoundary s byte) := by
  induction byte with
  | zero => exact String.Pos.Raw.isValid_zero
  | succ byte ih =>
    unfold lastBoundary
    split
    · next h => exact h
    · exact ih

/-- The text before a byte.  There is none when the byte is within a character
or behind the end. -/
def before? (s : String) (byte : Nat) : Option String :=
  if h : IsBoundary s byte then some (s.sliceTo ⟨⟨byte⟩, h⟩).copy else none

theorem isSome_before? {s : String} {byte : Nat} (h : IsBoundary s byte) :
    (before? s byte).isSome := by
  rw [before?, dif_pos h, Option.isSome_some]

end CriteriaSql.Text.Utf8
