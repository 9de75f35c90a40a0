/-
CriteriaSql/Uuid.lean

The text forms of UUIDs.  A UUID is written as 32 hexadecimal digits with
hyphens after the 8th, 12th, 16th and 20th; it is also read without hyphens,
in braces, and after `urn:uuid:`.

Main statement: sixteen bytes read back from their hyphenated form
(`parse?_text`).
-/
import CriteriaSql.Text.Hex
import CriteriaSql.Text.Lowercase

namespace CriteriaSql.Uuid

open Text (asciiLowercase)

/-- Take out the hyphens of the hyphenated form, if they stand where they
should and the text has the right length. -/
def unhyphenated? (cs : List Char) : Option (List Char) :=
  let a := cs.take 8
  let b := (cs.drop 9).take 4
  let c := (cs.drop 14).take 4
  let d := (cs.drop 19).take 4
  let e := cs.drop 24
  if cs.length = 36 && cs == a ++ '-' :: b ++ '-' :: c ++ '-' :: d ++ '-' :: e then
    some (a ++ b ++ c ++ d ++ e)
  else none

/-- The 32 digits that a text in one of the forms holds. -/
def digits? (cs : List Char) : Option (List Char) :=
  if cs.length = 32 then some cs
  else if cs.length = 36 then unhyphenated? cs
  else if cs.length = 38 && cs.head? == some '\x7b' && cs.getLast? == some '\x7d' then
    unhyphenated? (cs.drop 1).dropLast
  else if cs.length = 45 && asciiLowercase (cs.take 9) == "urn:uuid:".toList then
    unhyphenated? (cs.drop 9)
  else none

/-- The sixteen bytes that a text in one of the forms writes. -/
def parse? (cs : List Char) : Option (List UInt8) :=
  match digits? cs with
  | some ds => Text.Hex.parse? ds
  | none => none

/-- The hyphenated form of sixteen bytes. -/
def text (bytes : List UInt8) : List Char :=
  let ds := Text.Hex.write bytes
  ds.take 8 ++ '-' :: (ds.drop 8).take 4 ++ '-' :: (ds.drop 12).take 4 ++ '-' ::
    (ds.drop 16).take 4 ++ '-' :: ds.drop 20

/-! ### Reading back -/

/-- The hyphens are taken out from between groups of the right lengths. -/
theorem unhyphenated?_groups {a b c d e : List Char} (ha : a.length = 8) (hb : b.length = 4)
    (hc : c.length = 4) (hd : d.length = 4) (he : e.length = 12) :
    unhyphenated? (a ++ '-' :: b ++ '-' :: c ++ '-' :: d ++ '-' :: e)
      = some (a ++ b ++ c ++ d ++ e) := by
  simp [unhyphenated?, List.drop_append, List.drop_eq_nil_of_le, ha, hb, hc, hd, he]

theorem parse?_text {bytes : List UInt8} (h : bytes.length = 16) :
    parse? (text bytes) = some bytes := by
  have hlength : (Text.Hex.write bytes).length = 32 := by rw [Text.Hex.length_write, h]
  have htext : (text bytes).length = 36 := by simp [text, hlength]
  have hgroups : unhyphenated? (text bytes) = some (Text.Hex.write bytes) := by
    rw [text, unhyphenated?_groups (by simp [hlength]) (by simp [hlength]) (by simp [hlength])
      (by simp [hlength]) (by simp [hlength])]
    rw [← List.take_add, ← List.take_add, ← List.take_add, List.take_append_drop]
  rw [parse?, digits?, if_neg (by rw [htext]; decide), if_pos htext, hgroups]
  exact Text.Hex.parse?_write bytes

end CriteriaSql.Uuid
