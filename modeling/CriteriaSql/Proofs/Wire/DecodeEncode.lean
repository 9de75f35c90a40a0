/-
CriteriaSql/Proofs/Wire/DecodeEncode.lean

What has been written as a parameter reads back as a column.

Booleans, integers and texts are written under a type of their own kind; an
integer is refused when it lies outside of the range of the type.  The layout of
arrays counts elements, and the bytes of an element, in signed words of 32 bits,
and refuses what it has no room for; all else it gives back element by element
(`arrayElements_encodeArray`).

Main result: `decode_encode`.
-/
import CriteriaSql.Proofs.Outcome
import CriteriaSql.Wire.Decode
import CriteriaSql.Wire.Encode

namespace CriteriaSql

namespace Wire

open BigEndian

/-! ### The layout of arrays -/

/-- Elements the layout has room for are taken back from the bytes one by one. -/
theorem takeElements_flatMap {elements : List (Option (List UInt8))}
    (h : ∀ e ∈ elements, (e.getD []).length ≤ maxLength) :
    takeElements elements.length (elements.flatMap encodeElement) = some elements := by
  have hmax : 2 * maxLength < span 4 := by decide
  induction elements with
  | nil => rfl
  | cons e elements ih =>
    obtain ⟨he, hrest⟩ := List.forall_mem_cons.mp h
    rw [List.length_cons, List.flatMap_cons, takeElements]
    rcases e with - | bytes
    · rw [encodeElement, takeInt_writeInt_append (by decide)]
      simp only [Option.bind_eq_bind, Option.bind_some]
      rw [ih hrest]
      rfl
    · rw [Option.getD_some] at he
      rw [encodeElement, List.append_assoc, takeInt_write_append (by omega)]
      simp only [Option.bind_eq_bind, Option.bind_some]
      rw [if_neg (by omega), Int.toNat_natCast, if_pos (by simp), List.drop_left, List.take_left,
        ih hrest]
      rfl

/-- An array gives its elements back. -/
theorem arrayElements_encodeArray (elementOid lowerBound : Nat)
    {elements : List (Option (List UInt8))} (hlength : elements.length ≤ maxLength)
    (h : ∀ e ∈ elements, (e.getD []).length ≤ maxLength) :
    arrayElements (encodeArray elementOid lowerBound elements) = some elements := by
  have hmax : 2 * maxLength < span 4 := by decide
  rw [arrayElements, encodeArray]
  simp only [List.append_assoc]
  rw [takeInt_write_append (by decide)]
  simp only [Option.bind_eq_bind, Option.bind_some]
  rw [takeInt_append (length_write 4 _)]
  simp only [Option.bind_some]
  rw [takeInt_append (length_write 4 _)]
  simp only [Option.bind_some]
  rw [takeInt_write_append (by omega)]
  simp only [Option.bind_some]
  rw [takeInt_append (length_write 4 _)]
  simp only [Option.bind_some]
  rw [if_neg (by decide), if_pos (by decide), if_neg (by omega), Int.toNat_natCast]
  exact takeElements_flatMap h

/-! ### Values of a type -/

/-- The types of integers. -/
def integerTypes : List Scalar := [.int2, .int4, .int8, .oid]

/-- A value of the kind of the type: a boolean, an integer or a text. -/
inductive OfKind : Scalar → Json → Prop
  | bool (b : Bool) : OfKind .bool (.bool b)
  | int {type : Scalar} (htype : type ∈ integerTypes) (n : Int) : OfKind type (.num (.int n))
  | text (s : String) : OfKind .text (.str s)

/-- The least and the greatest integer of a type. -/
def bounds : Scalar → Int × Int
  | .int2 => (-32768, 32767)
  | .int4 => (-2147483648, 2147483647)
  | .int8 => (-9223372036854775808, 9223372036854775807)
  | .oid => (0, 4294967295)
  | _ => (0, 0)

/-- An integer is one of the type. -/
def InRange (type : Scalar) : Json → Prop
  | .num (.int n) => (bounds type).1 ≤ n ∧ n ≤ (bounds type).2
  | _ => True

/-- An item of an array is null or a value of the kind of the type. -/
def OfKindOrNull (type : Scalar) (v : Json) : Prop :=
  v = .null ∨ OfKind type v

/-- The layout of arrays can say how long the text is, if the value is one. -/
def FitsElement (v : Json) : Prop :=
  ∀ s, v = .str s → s.utf8ByteSize < pow2 31

/-- The layout of arrays can say how many items there are and how long each of
them is. -/
def FitsLayout (items : List Json) : Prop :=
  items.length < pow2 31 ∧ ∀ v ∈ items, FitsElement v

/-! ### Integers -/

theorem fitsSigned_iff {width : Nat} {half : Int} (h : (span width : Int) = 2 * half) (n : Int) :
    fitsSigned width n = true ↔ -half ≤ n ∧ n ≤ half - 1 := by
  simp only [fitsSigned, Bool.and_eq_true, decide_eq_true_eq]
  omega

/-- A signed word of up to 64 bits takes the integers that fit it, and no
others. -/
theorem encodeSigned_int {width : Nat} (hwidth : width ≤ 8) (n : Int) :
    encodeSigned width (.num (.int n))
      = if fitsSigned width n then .ok (writeInt width n)
        else .error (if fitsSigned 8 n then .integerRange else .fraction (.int n)) := by
  rw [encodeSigned, intOf]
  by_cases h8 : fitsSigned 8 n
  · rw [if_pos h8, if_pos h8]
    rfl
  · have hn : ¬ fitsSigned width n = true := fun h => h8 (fitsSigned_of_le hwidth h)
    rw [if_neg h8, if_neg h8, if_neg hn]
    rfl

theorem encodeUnsigned_int (n : Int) :
    encodeUnsigned 4 (.num (.int n))
      = if fitsUnsigned 4 n then .ok (write 4 n.toNat)
        else .error (if fitsSigned 8 n then .integerRange else .fraction (.int n)) := by
  rw [encodeUnsigned, intOf]
  by_cases h8 : fitsSigned 8 n
  · rw [if_pos h8, if_pos h8]
    rfl
  · have hn : ¬ fitsUnsigned 4 n = true := by
      have h4 : 2 * span 4 ≤ span 8 := by decide
      simp only [fitsSigned, fitsUnsigned, Bool.and_eq_true, decide_eq_true_eq] at h8 ⊢
      omega
    rw [if_neg h8, if_neg h8, if_neg hn]
    rfl

theorem decodeInt_writeInt {width : Nat} {n : Int} (h : fitsSigned width n = true) :
    (decodeInt width (writeInt width n)).map Json.ofInt = some (.num (.int n)) := by
  rw [decodeInt, exactly, if_pos (length_writeInt width n), Option.map_some, readInt_writeInt h]
  rfl

theorem decode_write {n : Int} (h : fitsUnsigned 4 n = true) :
    (exactly 4 (write 4 n.toNat)).map (fun bytes => Json.ofNat (read bytes))
      = some (.num (.int n)) := by
  simp only [fitsUnsigned, Bool.and_eq_true, decide_eq_true_eq] at h
  rw [exactly, if_pos (length_write 4 _), Option.map_some, read_write, Nat.mod_eq_of_lt (by omega),
    Json.ofNat, Int.toNat_of_nonneg h.1]

/-! ### Scalars -/

/-- What becomes of a value under a type: in range it has bytes that read back
as the value, and outside of the range it has none. -/
inductive WritesBack (type : Scalar) (v : Json) : Prop
  | written (bytes : List UInt8) (hrange : InRange type v)
      (hencode : encodeScalar type v = .ok bytes) (hdecode : decodeScalar type bytes = some v)
      (hlength : bytes.length ≤ maxLength ↔ FitsElement v)
  | refused (fault : EncodeFault) (hrange : ¬ InRange type v)
      (hencode : encodeScalar type v = .error fault)

theorem fitsElement_int {bytes : List UInt8} (h : bytes.length ≤ 8) (n : Int) :
    bytes.length ≤ maxLength ↔ FitsElement (.num (.int n)) :=
  iff_of_true (Nat.le_trans h (by decide)) fun _ hs => by cases hs

/-- An integer in a signed word, whose range is that of the type. -/
theorem writesBack_signed {type : Scalar} (width : Nat) {half : Int} (hwidth : width ≤ 8)
    (hspan : (span width : Int) = 2 * half) (hbounds : bounds type = (-half, half - 1))
    (hencode : encodeScalar type = encodeSigned width)
    (hdecode : ∀ bytes, decodeScalar type bytes = (decodeInt width bytes).map Json.ofInt)
    (n : Int) : WritesBack type (.num (.int n)) := by
  have hrange : fitsSigned width n = true ↔ InRange type (.num (.int n)) := by
    rw [fitsSigned_iff hspan, InRange, hbounds]
  have hn := encodeSigned_int hwidth n
  rw [← hencode] at hn
  split at hn
  · next h =>
    refine .written _ (hrange.mp h) hn ?_ (fitsElement_int ?_ n)
    · rw [hdecode, decodeInt_writeInt h]
    · rw [length_writeInt]
      exact hwidth
  · next h => exact .refused _ (mt hrange.mpr h) hn

theorem writesBack_oid (n : Int) : WritesBack .oid (.num (.int n)) := by
  have hspan : span 4 = 4294967296 := by decide
  have hrange : fitsUnsigned 4 n = true ↔ InRange .oid (.num (.int n)) := by
    simp only [fitsUnsigned, Bool.and_eq_true, decide_eq_true_eq, InRange, bounds]
    omega
  have hn : encodeScalar .oid (.num (.int n)) = _ := encodeUnsigned_int n
  split at hn
  · next h =>
    refine .written _ (hrange.mp h) hn (decode_write h) (fitsElement_int ?_ n)
    rw [length_write]
    decide
  · next h => exact .refused _ (mt hrange.mpr h) hn

theorem writesBack {type : Scalar} {v : Json} (hv : OfKind type v) : WritesBack type v := by
  cases hv with
  | bool b =>
    refine .written [if b then 1 else 0] trivial rfl (by cases b <;> rfl) ?_
    exact iff_of_true (by decide : 1 ≤ maxLength) fun _ hs => by cases hs
  | text s =>
    refine .written (Text.Utf8.encode s) trivial rfl ?_ ⟨?_, ?_⟩
    · rw [decodeScalar, Text.Utf8.decode?_encode]
      rfl
    · rintro h t ht
      obtain rfl := Json.str.inj ht
      exact Nat.lt_succ_of_le h
    · exact fun h => Nat.le_of_lt_succ (h s rfl)
  | int htype n =>
    simp only [integerTypes, List.mem_cons, List.not_mem_nil, or_false] at htype
    rcases htype with rfl | rfl | rfl | rfl
    · exact writesBack_signed 2 (by decide) (by decide) rfl rfl (fun _ => rfl) n
    · exact writesBack_signed 4 (by decide) (by decide) rfl rfl (fun _ => rfl) n
    · exact writesBack_signed 8 (by decide) (by decide) rfl rfl (fun _ => rfl) n
    · exact writesBack_oid n

/-! ### Values and items -/

theorem OfKind.ne_null {type : Scalar} {v : Json} (hv : OfKind type v) : v ≠ .null := by
  cases hv <;> exact Json.noConfusion

theorem encode_scalar {v : Json} (hv : v ≠ .null) (type : Scalar) :
    encode (.scalar type) v = (encodeScalar type v).map some := by
  cases v with
  | null => exact absurd rfl hv
  | _ => rfl

/-- A value has bytes exactly when it is in range. -/
theorem exists_encode_iff {type : Scalar} {v : Json} (hv : OfKind type v) :
    (∃ bytes, encode (.scalar type) v = .ok (some bytes)) ↔ InRange type v := by
  rw [encode_scalar hv.ne_null]
  rcases writesBack hv with ⟨bytes, hrange, hencode, -, -⟩ | ⟨fault, hrange, hencode⟩
  · exact iff_of_true ⟨bytes, by rw [hencode]; rfl⟩ hrange
  · refine iff_of_false ?_ hrange
    rintro ⟨bytes, h⟩
    rw [hencode] at h
    cases h

/-- The bytes of a value read back as the value. -/
theorem decode_of_encode {type : Scalar} {v : Json} (hv : OfKindOrNull type v)
    {out : Option (List UInt8)} (h : encode (.scalar type) v = .ok out) :
    decode (.scalar type) out = some v := by
  rcases hv with rfl | hv
  · obtain rfl := Except.ok.inj h
    rfl
  · rw [encode_scalar hv.ne_null] at h
    rcases writesBack hv with ⟨bytes, -, hencode, hdecode, -⟩ | ⟨fault, -, hencode⟩
    · rw [hencode] at h
      obtain rfl := Except.ok.inj h
      exact hdecode
    · rw [hencode] at h
      cases h

theorem roomFor_eq_ok_iff {e e' : Option (List UInt8)} :
    roomFor e = .ok e' ↔ e = e' ∧ (e.getD []).length ≤ maxLength := by
  unfold roomFor
  split
  · next h => exact ⟨fun he => ⟨Except.ok.inj he, h⟩, fun he => by rw [he.1]⟩
  · next h => exact ⟨fun he => (by cases he), fun he => absurd he.2 h⟩

/-- An item becomes an element exactly when it is in range and not too long. -/
theorem exists_element_iff {type : Scalar} {v : Json} (hv : OfKindOrNull type v) :
    (∃ e, (encode (.scalar type) v >>= roomFor) = .ok e) ↔ InRange type v ∧ FitsElement v := by
  rcases hv with rfl | hv
  · exact iff_of_true ⟨none, rfl⟩ ⟨trivial, fun _ hs => by cases hs⟩
  · rcases writesBack hv with ⟨bytes, hrange, hencode, -, hlength⟩ | ⟨fault, hrange, hencode⟩
    · have hstep : (encode (.scalar type) v >>= roomFor) = roomFor (some bytes) := by
        rw [encode_scalar hv.ne_null, hencode]
        rfl
      simp only [hstep, roomFor_eq_ok_iff, ← hlength]
      exact ⟨fun ⟨_, _, h⟩ => ⟨hrange, h⟩, fun h => ⟨some bytes, rfl, h.2⟩⟩
    · have hstep : (encode (.scalar type) v >>= roomFor) = .error fault := by
        rw [encode_scalar hv.ne_null, hencode]
        rfl
      rw [hstep]
      exact iff_of_false (fun ⟨_, h⟩ => by cases h) fun h => hrange h.1

/-! ### Arrays -/

section

variable {type : Scalar} {items : List Json} (hitems : ∀ v ∈ items, OfKindOrNull type v)
  (name : String) (elementOid lowerBound : Nat)

theorem encode_arr :
    encode (.array name (.scalar type) elementOid lowerBound) (.arr items)
      = (encodeItems (encode (.scalar type)) elementOid lowerBound items).map some := by
  rw [encode]
  · show (encodeItems _ _ _ items >>= fun bytes => pure (some bytes)) = _
    rcases encodeItems (encode (.scalar type)) elementOid lowerBound items with e | bytes <;> rfl
  · exact Json.noConfusion

include hitems

theorem exists_encode_arr_iff :
    (∃ bytes, encode (.array name (.scalar type) elementOid lowerBound) (.arr items)
        = .ok (some bytes)) ↔ (∀ v ∈ items, InRange type v) ∧ FitsLayout items := by
  have hall : (∃ elements, (items.mapM fun v => encode (.scalar type) v >>= roomFor)
      = .ok elements) ↔ ∀ v ∈ items, InRange type v ∧ FitsElement v := by
    rw [exists_mapM_eq_ok_iff]
    exact forall₂_congr fun v hv => exists_element_iff (hitems v hv)
  have hiff : (∀ v ∈ items, InRange type v) ∧ FitsLayout items ↔
      items.length ≤ maxLength ∧ ∀ v ∈ items, InRange type v ∧ FitsElement v := by
    constructor
    · rintro ⟨hrange, hlength, hfits⟩
      exact ⟨Nat.le_of_lt_succ hlength, fun v hv => ⟨hrange v hv, hfits v hv⟩⟩
    · rintro ⟨hlength, h⟩
      exact ⟨fun v hv => (h v hv).1, Nat.lt_succ_of_le hlength, fun v hv => (h v hv).2⟩
  rw [hiff, ← hall, encode_arr, encodeItems]
  split
  · next hlength =>
    constructor
    · rintro ⟨bytes, h⟩
      obtain ⟨_, h, -⟩ := map_eq_ok_iff.mp h
      obtain ⟨elements, helements, -⟩ := bind_eq_ok_iff.mp h
      exact ⟨hlength, elements, helements⟩
    · rintro ⟨-, elements, helements⟩
      exact ⟨_, by rw [helements]; rfl⟩
  · next hlength => exact iff_of_false (fun ⟨_, h⟩ => by cases h) fun h => hlength h.1

theorem decode_of_encode_arr {out : Option (List UInt8)}
    (h : encode (.array name (.scalar type) elementOid lowerBound) (.arr items) = .ok out) :
    decode (.array name (.scalar type) elementOid lowerBound) out = some (.arr items) := by
  rw [encode_arr, encodeItems] at h
  obtain ⟨bytes, hbytes, rfl⟩ := map_eq_ok_iff.mp h
  split at hbytes
  · next hlength =>
    obtain ⟨elements, helements, hbytes⟩ := bind_eq_ok_iff.mp hbytes
    obtain rfl := Except.ok.inj hbytes
    have hroom : ∀ e ∈ elements, (e.getD []).length ≤ maxLength := by
      intro e he
      obtain ⟨v, -, hv⟩ := exists_of_mapM_eq_ok helements e he
      obtain ⟨e', -, hv⟩ := bind_eq_ok_iff.mp hv
      obtain ⟨rfl, h⟩ := roomFor_eq_ok_iff.mp hv
      exact h
    have hdecode : elements.mapM (decode (.scalar type)) = some items := by
      refine mapM_eq_some_of_mapM_eq_ok helements fun v hv e he => ?_
      obtain ⟨e', hencode, he⟩ := bind_eq_ok_iff.mp he
      obtain ⟨rfl, -⟩ := roomFor_eq_ok_iff.mp he
      exact decode_of_encode (hitems v hv) hencode
    rw [← length_of_mapM_eq_ok helements] at hlength
    rw [decode, arrayElements_encodeArray elementOid lowerBound hlength hroom]
    simp only [Option.bind_eq_bind, Option.bind_some]
    rw [hdecode]
    rfl
  · cases hbytes

end

/-- Values and lists of them are written exactly when every integer is in the
range of the type, and what has been written reads back, with its nulls in
place.  A list has a binary form at all only when its length, and that of each
text in it, has room in the signed 32-bit words of the layout. -/
theorem decode_encode (type : Scalar) :
    (∀ v, OfKind type v →
      ((∃ bytes, encode (.scalar type) v = .ok (some bytes)) ↔ InRange type v) ∧
        ∀ out, encode (.scalar type) v = .ok out → decode (.scalar type) out = some v) ∧
      ∀ (name : String) (elementOid lowerBound : Nat) (items : List Json),
        (∀ v ∈ items, OfKindOrNull type v) →
          ((∃ bytes, encode (.array name (.scalar type) elementOid lowerBound) (.arr items)
              = .ok (some bytes)) ↔ (∀ v ∈ items, InRange type v) ∧ FitsLayout items) ∧
            ∀ out, encode (.array name (.scalar type) elementOid lowerBound) (.arr items) = .ok out →
              decode (.array name (.scalar type) elementOid lowerBound) out = some (.arr items) := by
  refine ⟨fun v hv => ⟨exists_encode_iff hv, ?_⟩, fun name elementOid lowerBound items hitems => ?_⟩
  · exact fun out h => decode_of_encode (.inr hv) h
  · exact ⟨exists_encode_arr_iff hitems name elementOid lowerBound,
      fun out h => decode_of_encode_arr hitems name elementOid lowerBound h⟩

/-- The least integer of two bytes, and a list with a null and the integer
behind the greatest one. -/
theorem decode_encode_int2 :
    OfKind .int2 (.num (.int (-32768))) ∧
      encode (.scalar .int2) (.num (.int (-32768))) = .ok (some [128, 0]) ∧
      decode (.scalar .int2) (some [128, 0]) = some (.num (.int (-32768))) ∧
      (∀ v ∈ [.null, .num (.int 32768)], OfKindOrNull .int2 v) ∧
      ¬ ∃ bytes, encode (.array "_int2" (.scalar .int2) 21 1)
        (.arr [.null, .num (.int 32768)]) = .ok (some bytes) := by
  have hv : OfKind .int2 (.num (.int (-32768))) := .int (by decide) _
  have hencode : encode (.scalar .int2) (.num (.int (-32768))) = .ok (some [128, 0]) := rfl
  have hitems : ∀ v ∈ [.null, .num (.int 32768)], OfKindOrNull .int2 v := by
    simp only [List.forall_mem_cons, List.not_mem_nil, false_imp_iff, implies_true, and_true]
    exact ⟨.inl rfl, .inr (.int (by decide) _)⟩
  refine ⟨hv, hencode, ((decode_encode .int2).1 _ hv).2 _ hencode, hitems, fun h => ?_⟩
  have hrange := (((decode_encode .int2).2 "_int2" 21 1 _ hitems).1.mp h).1
    (.num (.int 32768)) (by simp)
  exact absurd hrange.2 (by decide)

end Wire

end CriteriaSql
