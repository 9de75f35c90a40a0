/-
CriteriaSql/Wire/Decode.lean

The JSON value of a column in binary form.  Numbers become numbers, texts texts,
and documents what they are; bytes become hexadecimal digits, and doubles that
are no numbers become words.
-/
import CriteriaSql.Json.Parser
import CriteriaSql.Text.Hex
import CriteriaSql.Text.Utf8
import CriteriaSql.Time.Writing
import CriteriaSql.Uuid
import CriteriaSql.Wire.Numeric
import CriteriaSql.Wire.Type

namespace CriteriaSql.Wire

open BigEndian (read readInt takeInt)
open Number (Double)

/-! ### Scalars -/

/-- Bytes of exactly the given number. -/
def exactly (width : Nat) (bytes : List UInt8) : Option (List UInt8) :=
  if bytes.length = width then some bytes else none

/-- A signed integer of exactly the given number of bytes. -/
def decodeInt (width : Nat) (bytes : List UInt8) : Option Int :=
  (exactly width bytes).map readInt

/-- A double as a number, or the word for one that is not finite. -/
def ofDouble (d : Double) : Json :=
  if d.isFinite then .num (.double d)
  else if d.isNaN then .str "NaN"
  else .str (if d.isNegative then "-inf" else "inf")

/-- A decimal number as a JSON number, or its text where no such number is. -/
def ofFixed (d : FixedDecimal) : Json :=
  let cs := d.normalized.text
  match JsonNumber.parse? cs with
  | some n => .num n
  | none => .str (String.ofList cs)

/-- A text of characters. -/
def ofChars (cs : List Char) : Json :=
  .str (String.ofList cs)

/-- The document that the bytes of a JSON text write. -/
def decodeDocument (bytes : List UInt8) : Option Json := do
  let text ← Text.Utf8.decode? bytes
  Json.parse? text.toList

/-- The date and time of a count of microseconds. -/
def decodeInstant (bytes : List UInt8) : Option Time.DateTime := do
  let micros ← decodeInt 8 bytes
  Time.DateTime.ofMicros? micros

/-- The value of a scalar column. -/
def decodeScalar (type : Scalar) (bytes : List UInt8) : Option Json :=
  match type with
  | .bool => (exactly 1 bytes).map fun bs => .bool (read bs ≠ 0)
  | .int2 => (decodeInt 2 bytes).map Json.ofInt
  | .int4 => (decodeInt 4 bytes).map Json.ofInt
  | .int8 => (decodeInt 8 bytes).map Json.ofInt
  | .oid => (exactly 4 bytes).map fun bs => .ofNat (read bs)
  | .float4 => (exactly 4 bytes).map fun bs => ofDouble (Double.ofSingle (read bs))
  | .float8 => (exactly 8 bytes).map fun bs => ofDouble ⟨UInt64.ofNat (read bs)⟩
  | .numeric => (Numeric.decode? bytes).map ofFixed
  | .json => decodeDocument bytes
  | .jsonb =>
    match bytes with
    | 1 :: document => decodeDocument document
    | _ => none
  | .uuid => (exactly 16 bytes).map fun bs => ofChars (Uuid.text bs)
  | .timestamptz => (decodeInstant bytes).map fun t => ofChars (t.text 'T' ++ "+00:00".toList)
  | .timestamp => (decodeInstant bytes).map fun t => ofChars (t.text ' ')
  | .date => (decodeInt 4 bytes).bind fun n => (Time.Date.ofDays? n).map fun d => ofChars d.text
  | .time => (decodeInt 8 bytes).map fun n => ofChars (Time.TimeOfDay.ofMicros n).text
  | .bytea => some (ofChars ('\\' :: 'x' :: Text.Hex.write bytes))
  | .text => (Text.Utf8.decode? bytes).map .str

/-! ### Arrays -/

/-- The elements that are left of an array; those of negative length are null,
and nothing may follow the last. -/
def takeElements : (n : Nat) → List UInt8 → Option (List (Option (List UInt8)))
  | 0, bytes => if bytes.isEmpty then some [] else none
  | n + 1, bytes => do
    let (length, bytes) ← takeInt 4 bytes
    if length < 0 then
      let elements ← takeElements n bytes
      return none :: elements
    else if length.toNat ≤ bytes.length then
      let elements ← takeElements n (bytes.drop length.toNat)
      return some (bytes.take length.toNat) :: elements
    else none

/-- The elements of an array of at most one dimension.  The type of the elements
and the number of the first are passed over. -/
def arrayElements (bytes : List UInt8) : Option (List (Option (List UInt8))) := do
  let (dimensions, bytes) ← takeInt 4 bytes
  let (_, bytes) ← takeInt 4 bytes
  let (_, bytes) ← takeInt 4 bytes
  if dimensions = 0 then takeElements 0 bytes
  else if dimensions = 1 then
    let (length, bytes) ← takeInt 4 bytes
    let (_, bytes) ← takeInt 4 bytes
    if length < 0 then none else takeElements length.toNat bytes
  else none

/-- The JSON value of a column, if its bytes are a value of the type; no bytes
are null. -/
def decode : PgType → Option (List UInt8) → Option Json
  | _, none => some .null
  | .scalar type, some bytes => decodeScalar type bytes
  | .array _ element _ _, some bytes => do
    let elements ← arrayElements bytes
    let items ← elements.mapM (decode element)
    return .arr items

end CriteriaSql.Wire
