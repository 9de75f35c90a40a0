/-
CriteriaSql/Proofs/Wire/Restoring.lean

A value that has been read as a column, written back as a parameter.

What a column of one of these types is read as can be written under its type.
Booleans, integers, texts and identifiers are read from what has been written
once more as the same value.  A document is, unless it is a string that holds
the text of an object or a list, which is written as that document, or a double
in it is not read from its own text: its text has the shortest digits that only
an exact reader takes back to it, and the reader rounds twice.

Main result: `restores_of_decode`; the exceptions are real (`not_restores`).
-/
import CriteriaSql.Proofs.Json.ReadBack
import CriteriaSql.Proofs.Wire.DecodeEncode

namespace CriteriaSql

namespace Wire

open BigEndian
open Json (Readable)
open Number (Double Decimal binary64)

/-! ### Types of columns -/

/-- Types of booleans, integers and texts. -/
def plainTypes : List Scalar := [.bool, .int2, .int4, .int8, .oid, .text]

/-- Types of documents. -/
def documentTypes : List Scalar := [.json, .jsonb]

/-- Types of columns, but for numbers that are no integers, and for times. -/
def columnTypes : List Scalar := plainTypes ++ [.uuid, .bytea] ++ documentTypes

/-! ### Plain values -/

theorem exactly_eq_some_iff {width : Nat} {bytes bytes' : List UInt8} :
    exactly width bytes = some bytes' ↔ bytes = bytes' ∧ bytes.length = width := by
  unfold exactly
  split
  · next h => exact ⟨fun hb => ⟨Option.some.inj hb, h⟩, fun hb => congrArg some hb.1⟩
  · next h => exact ⟨fun hb => (by cases hb), fun hb => absurd hb.2 h⟩

/-- A signed word is read as an integer in its range. -/
theorem ofKind_of_decodeInt {type : Scalar} (width : Nat) {half : Int}
    (htype : type ∈ integerTypes) (hspan : (span width : Int) = 2 * half)
    (hbounds : bounds type = (-half, half - 1)) {bytes : List UInt8} {v : Json}
    (h : (decodeInt width bytes).map Json.ofInt = some v) : OfKind type v ∧ InRange type v := by
  obtain ⟨n, hn, rfl⟩ := Option.map_eq_some_iff.mp h
  obtain ⟨bytes, hbytes, rfl⟩ := Option.map_eq_some_iff.mp hn
  obtain ⟨rfl, hlength⟩ := exactly_eq_some_iff.mp hbytes
  have hfits := fitsSigned_readInt bytes
  rw [hlength, fitsSigned_iff hspan] at hfits
  refine ⟨.int htype _, ?_⟩
  rw [Json.ofInt, InRange, hbounds]
  exact hfits

/-- What a column of a plain type is read as is a value of its kind, in range. -/
theorem ofKind_of_decodeScalar {type : Scalar} (htype : type ∈ plainTypes) {bytes : List UInt8}
    {v : Json} (h : decodeScalar type bytes = some v) : OfKind type v ∧ InRange type v := by
  simp only [plainTypes, List.mem_cons, List.not_mem_nil, or_false] at htype
  rcases htype with rfl | rfl | rfl | rfl | rfl | rfl
  · obtain ⟨bytes, -, rfl⟩ := Option.map_eq_some_iff.mp h
    exact ⟨.bool _, trivial⟩
  · exact ofKind_of_decodeInt 2 (by decide) (by decide) rfl h
  · exact ofKind_of_decodeInt 4 (by decide) (by decide) rfl h
  · exact ofKind_of_decodeInt 8 (by decide) (by decide) rfl h
  · obtain ⟨bytes, hbytes, rfl⟩ := Option.map_eq_some_iff.mp h
    obtain ⟨rfl, hlength⟩ := exactly_eq_some_iff.mp hbytes
    have hread := read_lt bytes
    rw [hlength, show span 4 = 4294967296 by decide] at hread
    refine ⟨.int (by decide) _, ?_⟩
    show (0 : Int) ≤ read bytes ∧ (read bytes : Int) ≤ 4294967295
    omega
  · obtain ⟨s, -, rfl⟩ := Option.map_eq_some_iff.mp h
    exact ⟨.text s, trivial⟩

/-- A value of a plain type is written, and its bytes are read as it. -/
theorem encodeScalar_of_plain {type : Scalar} (htype : type ∈ plainTypes) {bytes : List UInt8}
    {v : Json} (h : decodeScalar type bytes = some v) :
    ∃ out, encodeScalar type v = .ok out ∧ decodeScalar type out = some v := by
  obtain ⟨hkind, hrange⟩ := ofKind_of_decodeScalar htype h
  rcases writesBack hkind with ⟨out, -, hencode, hdecode, -⟩ | ⟨fault, hrefused, -⟩
  · exact ⟨out, hencode, hdecode⟩
  · exact absurd hrange hrefused

/-! ### Identifiers -/

theorem encodeScalar_of_uuid {bytes : List UInt8} {v : Json}
    (h : decodeScalar .uuid bytes = some v) :
    ∃ out, encodeScalar .uuid v = .ok out ∧ decodeScalar .uuid out = some v := by
  obtain ⟨bytes, hbytes, rfl⟩ := Option.map_eq_some_iff.mp h
  obtain ⟨rfl, hlength⟩ := exactly_eq_some_iff.mp hbytes
  refine ⟨bytes, ?_, h⟩
  rw [encodeScalar, readText, ofChars, scalarText, String.toList_ofList, Uuid.parse?_text hlength]

/-! ### Documents -/

/-- A document that is written as itself and read from that as itself. -/
structure IsStable (v : Json) : Prop where
  not_nested : ∀ s w, v = .str s → Json.parse? s.toList = some w → ¬ (w.isArr || w.isObj)
  doubles : ∀ d, .double d ∈ v.numbers →
    JsonNumber.parse? (JsonNumber.doubleText d) = some (.double d)

theorem isStable_null : IsStable .null where
  not_nested _ _ h := by cases h
  doubles _ h := by cases h

/-- A string that holds the text of an object or a list stands for that. -/
theorem documentOf_str {s : String} {w : Json} (h : Json.parse? s.toList = some w)
    (hw : w.isArr || w.isObj) : documentOf (.str s) = w := by
  rw [documentOf, h]
  cases w with
  | arr items => rfl
  | obj members => rfl
  | _ => cases hw

/-- All else stands for itself. -/
theorem documentOf_eq_self {v : Json}
    (h : ∀ s w, v = .str s → Json.parse? s.toList = some w → ¬ (w.isArr || w.isObj)) :
    documentOf v = v := by
  cases v with
  | str s =>
    rcases hparse : Json.parse? s.toList with - | w
    · rw [documentOf, hparse]
    · have hw := h s w rfl hparse
      rw [documentOf, hparse]
      cases w with
      | arr items => exact absurd rfl hw
      | obj members => exact absurd rfl hw
      | _ => rfl
  | _ => rfl

theorem decodeDocument_encode (s : String) :
    decodeDocument (Text.Utf8.encode s) = Json.parse? s.toList := by
  rw [decodeDocument, Text.Utf8.decode?_encode]
  rfl

theorem decodeDocument_text (w : Json) :
    decodeDocument (Text.Utf8.encode w.text) = Json.parse? w.chars := by
  rw [decodeDocument_encode, Json.text, String.toList_ofList]

/-- An object or a list is not read as a string. -/
theorem reread_ne_str {w : Json} (h : w.isArr || w.isObj) (s : String) :
    w.reread ≠ some (.str s) := by
  cases w with
  | arr items => rw [Json.reread]; simp
  | obj members => rw [Json.reread]; simp
  | _ => cases h

/-- A document that has been read is read from what is written of it exactly
when it is stable. -/
theorem decodeDocument_documentOf {v : Json} (hv : Readable Json.maxDepth v) :
    decodeDocument (Text.Utf8.encode (documentOf v).text) = some v ↔ IsStable v := by
  rw [decodeDocument_text]
  by_cases hnested : ∃ s w, v = .str s ∧ Json.parse? s.toList = some w ∧ (w.isArr || w.isObj)
  · obtain ⟨s, w, rfl, hparse, hw⟩ := hnested
    rw [documentOf_str hparse hw, Json.parse?_chars (Json.readable_of_parse? hparse)]
    exact iff_of_false (reread_ne_str hw s) fun h => h.not_nested s w rfl hparse hw
  · have hself : ∀ s w, v = .str s → Json.parse? s.toList = some w → ¬ (w.isArr || w.isObj) :=
      fun s w hs hparse hw => hnested ⟨s, w, hs, hparse, hw⟩
    rw [documentOf_eq_self hself, Json.parse?_chars_eq_some_iff hv]
    exact ⟨fun hdoubles => ⟨hself, hdoubles⟩, fun h => h.doubles⟩

theorem readable_of_decodeDocument {bytes : List UInt8} {v : Json}
    (h : decodeDocument bytes = some v) : Readable Json.maxDepth v := by
  obtain ⟨text, -, h⟩ := Option.bind_eq_some_iff.mp h
  exact Json.readable_of_parse? h

theorem decodeScalar_jsonb {bytes : List UInt8} {v : Json}
    (h : decodeScalar .jsonb bytes = some v) : ∃ document, decodeDocument document = some v := by
  unfold decodeScalar at h
  dsimp only at h
  split at h
  · exact ⟨_, h⟩
  · cases h

/-- A document is written, and its bytes are read as it when it is stable. -/
theorem encodeScalar_of_document {type : Scalar} (htype : type ∈ documentTypes)
    {bytes : List UInt8} {v : Json} (h : decodeScalar type bytes = some v) :
    ∃ out, encodeScalar type v = .ok out ∧ (decodeScalar type out = some v ↔ IsStable v) := by
  simp only [documentTypes, List.mem_cons, List.not_mem_nil, or_false] at htype
  rcases htype with rfl | rfl
  · exact ⟨_, rfl, decodeDocument_documentOf (readable_of_decodeDocument h)⟩
  · obtain ⟨document, h⟩ := decodeScalar_jsonb h
    exact ⟨_, rfl, decodeDocument_documentOf (readable_of_decodeDocument h)⟩

/-! ### Columns -/

theorem encodeScalar_of_decodeScalar {type : Scalar} (htype : type ∈ columnTypes)
    {bytes : List UInt8} {v : Json} (h : decodeScalar type bytes = some v) :
    ∃ out, encodeScalar type v = .ok out ∧ (type ≠ .bytea →
      (decodeScalar type out = some v ↔ (type ∈ documentTypes → IsStable v))) := by
  simp only [columnTypes, List.mem_append, List.mem_cons, List.not_mem_nil, or_false] at htype
  rcases htype with (hplain | rfl | rfl) | hdocument
  · obtain ⟨out, hencode, hdecode⟩ := encodeScalar_of_plain hplain h
    have hno : type ∉ documentTypes := (by decide : ∀ t ∈ plainTypes, t ∉ documentTypes) _ hplain
    exact ⟨out, hencode, fun _ => iff_of_true hdecode fun hdocument => absurd hdocument hno⟩
  · obtain ⟨out, hencode, hdecode⟩ := encodeScalar_of_uuid h
    exact ⟨out, hencode, fun _ => iff_of_true hdecode fun hdocument => absurd hdocument (by decide)⟩
  · obtain rfl := Option.some.inj h
    exact ⟨_, rfl, fun hbytea => absurd rfl hbytea⟩
  · obtain ⟨out, hencode, hdecode⟩ := encodeScalar_of_document hdocument h
    exact ⟨out, hencode, fun _ => hdecode.trans ⟨fun h _ => h, fun h => h hdocument⟩⟩

/-- A value can be written under a type, and is read from what has been written
as itself. -/
def Restores (type : Scalar) (v : Json) : Prop :=
  ∃ out, encode (.scalar type) v = .ok out ∧ decode (.scalar type) out = some v

theorem restores_iff {type : Scalar} {v : Json} {out : Option (List UInt8)}
    (h : encode (.scalar type) v = .ok out) :
    Restores type v ↔ decode (.scalar type) out = some v := by
  constructor
  · rintro ⟨out', h', hdecode⟩
    obtain rfl := Except.ok.inj (h.symm.trans h')
    exact hdecode
  · exact fun hdecode => ⟨out, h, hdecode⟩

/-- What a column is read as can be written under its type.  But for bytes, it is
read as the same value again; for a document, exactly when it is stable. -/
theorem restores_of_decode {type : Scalar} (htype : type ∈ columnTypes)
    {raw : Option (List UInt8)} {v : Json} (h : decode (.scalar type) raw = some v) :
    (∃ out, encode (.scalar type) v = .ok out) ∧
      (type ≠ .bytea → (Restores type v ↔ (type ∈ documentTypes → IsStable v))) := by
  by_cases hv : v = .null
  · -- null is written without bytes, also the null of a document
    subst hv
    have hencode : encode (.scalar type) .null = .ok none := rfl
    refine ⟨⟨none, hencode⟩, fun _ => ?_⟩
    rw [restores_iff hencode]
    exact iff_of_true rfl fun _ => isStable_null
  · rcases raw with - | bytes
    · exact absurd (Option.some.inj h).symm hv
    · obtain ⟨out, hout, hdecode⟩ := encodeScalar_of_decodeScalar htype h
      have hencode : encode (.scalar type) v = .ok (some out) := by
        rw [encode_scalar hv, hout]
        rfl
      refine ⟨⟨some out, hencode⟩, fun hbytea => ?_⟩
      rw [restores_iff hencode]
      exact hdecode hbytea

/-- A list with an integer, as a document. -/
theorem restores_of_decode_list :
    Scalar.jsonb ∈ columnTypes ∧
      decode (.scalar .jsonb) (some (1 :: Text.Utf8.encode "[7]")) = some (.arr [.num (.int 7)]) ∧
      Restores .jsonb (.arr [.num (.int 7)]) := by
  have hreadable : Readable Json.maxDepth (.arr [.num (.int 7)]) := by
    refine .arr fun v hv => ?_
    rw [List.mem_singleton.mp hv]
    refine .num ?_
    rintro m ⟨⟩
    decide
  have hdoubles : ∀ d, .double d ∈ Json.numbers (.arr [.num (.int 7)]) →
      JsonNumber.parse? (JsonNumber.doubleText d) = some (.double d) := by
    simp [Json.numbers, Json.itemNumbers]
  have hstable : IsStable (.arr [.num (.int 7)]) := ⟨fun _ _ h => (by cases h), hdoubles⟩
  have hdecode : decode (.scalar .jsonb) (some (1 :: Text.Utf8.encode "[7]"))
      = some (.arr [.num (.int 7)]) :=
    (decodeDocument_text _).trans ((Json.parse?_chars_eq_some_iff hreadable).mpr hdoubles)
  exact ⟨by decide, hdecode,
    ((restores_of_decode (by decide) hdecode).2 (by decide)).mpr fun _ => hstable⟩

/-! ### Values that are not restored -/

/-- The double that `1e-24` is read as, which is not the nearest one. -/
def besideE24 : Double := ⟨4247835366853742248⟩

theorem decodeDocument_e24 :
    decodeDocument (Text.Utf8.encode "1e-24") = some (.num (.double besideE24)) := by
  have hparse : Json.parse? "1e-24".toList
      = some (.num (.double (NumberLiteral.scaleDown (.ofNat 1) 24))) := rfl
  have hscale : NumberLiteral.scaleDown (.ofNat 1) 24 = besideE24 := by
    rw [NumberLiteral.scaleDown, if_pos (by decide)]
    decide +kernel
  rw [decodeDocument_encode, hparse, hscale]

theorem shortest_besideE24 : Decimal.shortest besideE24 = ⟨10000000000000001, -40⟩ := by
  have hvalue : binary64.value besideE24.magnitude = (5444517870735016, -132) := by
    decide +kernel
  have hnarrow : (5444517870735016 == pow2 52 && decide (binary64.minPower < -132)) = false := by
    decide +kernel
  have hgrid : ((List.range 17).findSome? fun (n : Nat) =>
      Decimal.onGrid? 5444517870735016 (-132) false
        (Decimal.leadingExponent 5444517870735016 (-132) - n))
        = some ⟨10000000000000001, -40⟩ := by
    decide +kernel
  unfold Decimal.shortest
  rw [if_neg (by decide), hvalue]
  dsimp only
  rw [hnarrow, hgrid]
  dsimp only
  rw [Decimal.trimZeros, dif_neg (by decide)]

/-- Its text is read as the double below. -/
theorem parse?_besideE24 :
    JsonNumber.parse? (JsonNumber.doubleText besideE24)
      = some (.double ⟨4247835366853742247⟩) := by
  have htext : JsonNumber.doubleText besideE24 = "1.0000000000000001e-24".toList := by
    unfold JsonNumber.doubleText
    rw [shortest_besideE24]
    decide +kernel
  have hparse : JsonNumber.parse? "1.0000000000000001e-24".toList
      = some (.double (NumberLiteral.scaleDown (.ofNat 10000000000000001) 40)) := rfl
  rw [htext, hparse, NumberLiteral.scaleDown, if_pos (by decide)]
  decide +kernel

/-- A string that holds the text of a list, a double that is read as another one
from its text, and bytes are not restored. -/
theorem not_restores :
    (decode (.scalar .jsonb) (some (1 :: Text.Utf8.encode "\"[]\"")) = some (.str "[]") ∧
        ¬ Restores .jsonb (.str "[]")) ∧
      (decode (.scalar .json) (some (Text.Utf8.encode "1e-24"))
          = some (.num (.double besideE24)) ∧
        ¬ Restores .json (.num (.double besideE24))) ∧
      (decode (.scalar .bytea) (some [0xde, 0xad]) = some (.str "\\xdead") ∧
        ¬ Restores .bytea (.str "\\xdead")) := by
  refine ⟨⟨?_, ?_⟩, ⟨?_, ?_⟩, ?_, ?_⟩
  · exact decodeDocument_encode _
  · rintro ⟨out, hencode, hdecode⟩
    obtain rfl := Except.ok.inj hencode
    have hstable := (decodeDocument_documentOf (.str "[]")).mp hdecode
    exact hstable.not_nested "[]" (.arr []) rfl rfl rfl
  · exact decodeDocument_e24
  · rintro ⟨out, hencode, hdecode⟩
    obtain rfl := Except.ok.inj hencode
    have hstable := (decodeDocument_documentOf (.num fun _ h => by cases h)).mp hdecode
    have hback := hstable.doubles besideE24 List.mem_cons_self
    rw [parse?_besideE24] at hback
    revert hback
    decide
  · rfl
  · rintro ⟨out, hencode, hdecode⟩
    obtain rfl := Except.ok.inj hencode
    -- the text of the six bytes that are written has more than six characters
    have hchars := congrArg String.toList (Json.str.inj (Option.some.inj hdecode))
    rw [String.toList_ofList] at hchars
    have hlength := congrArg List.length hchars
    revert hlength
    decide

end Wire

end CriteriaSql
