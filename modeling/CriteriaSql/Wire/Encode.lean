/-
CriteriaSql/Wire/Encode.lean

The binary form of a JSON value as a parameter of a type.  Texts are read when
the type is not textual: numbers, dates, identifiers, documents, and array
literals.  Null is the null of every type, and an element of an array may be
null.
-/
import CriteriaSql.ArrayLiteral
import CriteriaSql.Json.Parser
import CriteriaSql.Json.Printer
import CriteriaSql.Number.DoubleText
import CriteriaSql.Text.Blank
import CriteriaSql.Text.Utf8
import CriteriaSql.Time.Reading
import CriteriaSql.Uuid
import CriteriaSql.Wire.Numeric
import CriteriaSql.Wire.Type

namespace CriteriaSql.Wire

open BigEndian (write writeInt fitsSigned fitsUnsigned)
open Number (Double)

/-- A value that is no parameter of the type. -/
inductive EncodeFault where
  | notArrayLiteral (text : String) (type : String)
  | notArray (got : Json) (type : String)
  | notBoolean (text : String)
  | boolean (got : Json)
  | fraction (number : JsonNumber)
  | integer (got : Json)
  | float (got : Json)
  | bytea (got : Json)
  | integerText
  | integerRange
  | floatText
  | timeText
  | decimalText
  | uuidText
  | tooLarge

/-- The complaint in words, where there is a wording of its own. -/
def EncodeFault.message? : EncodeFault → Option String
  | .notArrayLiteral text type =>
    some ("'" ++ text ++ "' is not an array literal for " ++ type)
  | .notArray got type => some ("cannot bind " ++ got.text ++ " as " ++ type)
  | .notBoolean text => some ("'" ++ text ++ "' is not a boolean")
  | .boolean got => some ("cannot bind " ++ got.text ++ " as boolean")
  | .fraction number => some (number.text ++ " is not an integer")
  | .integer got => some ("cannot bind " ++ got.text ++ " as integer")
  | .float got => some ("cannot bind " ++ got.text ++ " as float")
  | .bytea got => some ("cannot bind " ++ got.text ++ " as bytea")
  | .integerText | .integerRange | .floatText | .timeText | .decimalText | .uuidText
  | .tooLarge => none

/-! ### Reading values -/

/-- The text of a value: a text itself, and the JSON text of all else. -/
def scalarText : Json → String
  | .str s => s
  | value => value.text

/-- A boolean, or one of the words for it in any case. -/
def boolOf : Json → Except EncodeFault Bool
  | .bool b => .ok b
  | .str s =>
    match String.ofList (Text.asciiLowercase s.toList) with
    | "t" | "true" | "yes" | "on" | "1" => .ok true
    | "f" | "false" | "no" | "off" | "0" => .ok false
    | _ => .error (.notBoolean s)
  | got => .error (.boolean got)

/-- An integer of 64 bits: a number, the text of one with blanks around it, or a
boolean as one or zero. -/
def intOf : Json → Except EncodeFault Int
  | .num (.int n) => if fitsSigned 8 n then .ok n else .error (.fraction (.int n))
  | .num n => .error (.fraction n)
  | .str s =>
    match intOfText? (Text.trim s.toList) with
    | some n => if fitsSigned 8 n then .ok n else .error .integerText
    | none => .error .integerText
  | .bool b => .ok (if b then 1 else 0)
  | got => .error (.integer got)

/-- A double: a number, or the text of one with blanks around it. -/
def doubleOf : Json → Except EncodeFault Double
  | .num n => .ok n.toDouble
  | .str s =>
    match Double.ofText? (Text.trim s.toList) with
    | some d => .ok d
    | none => .error .floatText
  | got => .error (.float got)

/-- The document of a value: a text that is the JSON text of an object or a list
stands for that. -/
def documentOf : Json → Json
  | .str s =>
    match Json.parse? s.toList with
    | some (.obj members) => .obj members
    | some (.arr items) => .arr items
    | _ => .str s
  | value => value

/-- What a reader makes of the text of a value. -/
def readText {α : Type} (fault : EncodeFault) (reader : List Char → Option α) (value : Json) :
    Except EncodeFault α :=
  match reader (scalarText value).toList with
  | some a => .ok a
  | none => .error fault

/-! ### Scalars -/

/-- An integer in a signed word of a number of bytes. -/
def encodeSigned (width : Nat) (value : Json) : Except EncodeFault (List UInt8) := do
  let n ← intOf value
  if fitsSigned width n then return writeInt width n else throw .integerRange

/-- An integer in an unsigned word of a number of bytes. -/
def encodeUnsigned (width : Nat) (value : Json) : Except EncodeFault (List UInt8) := do
  let n ← intOf value
  if fitsUnsigned width n then return write width n.toNat else throw .integerRange

/-- An instant in nanoseconds as microseconds. -/
def encodeInstant (nanos : Int) : List UInt8 :=
  writeInt 8 (Time.DateTime.microsOfNanos nanos)

/-- The binary form of a value that is not null. -/
def encodeScalar (type : Scalar) (value : Json) : Except EncodeFault (List UInt8) :=
  match type with
  | .bool => (boolOf value).map fun b => [if b then 1 else 0]
  | .int2 => encodeSigned 2 value
  | .int4 => encodeSigned 4 value
  | .int8 => encodeSigned 8 value
  | .oid => encodeUnsigned 4 value
  | .float4 => (doubleOf value).map fun d => write 4 d.toSingle
  | .float8 => (doubleOf value).map fun d => write 8 d.bits.toNat
  | .numeric => (readText .decimalText FixedDecimal.ofText? value).map Numeric.encode
  | .json => .ok (Text.Utf8.encode (documentOf value).text)
  | .jsonb => .ok (1 :: Text.Utf8.encode (documentOf value).text)
  | .uuid => readText .uuidText Uuid.parse? value
  | .timestamptz => (readText .timeText Time.readRfc3339 value).map encodeInstant
  | .timestamp => (readText .timeText Time.readDateTime value).map encodeInstant
  | .date => (readText .timeText Time.readDate value).map fun d => writeInt 4 d.toDays
  | .time =>
    (readText .timeText Time.readTime value).map fun t => writeInt 8 (t.toNanos / 1000 : Nat)
  | .bytea =>
    match value with
    | .str s => .ok (Text.Utf8.encode s)
    | got => .error (.bytea got)
  | .text => .ok (Text.Utf8.encode (scalarText value))

/-! ### Arrays -/

/-- The greatest length that the layout of arrays has room for: it counts
elements and their bytes in signed words of 32 bits. -/
def maxLength : Nat := 0x7fffffff

/-- An element whose length the layout has room for. -/
def roomFor (element : Option (List UInt8)) : Except EncodeFault (Option (List UInt8)) :=
  if (element.getD []).length ≤ maxLength then .ok element else .error .tooLarge

/-- An element with its length in front; the length of null is -1. -/
def encodeElement : Option (List UInt8) → List UInt8
  | none => writeInt 4 (-1)
  | some bytes => write 4 bytes.length ++ bytes

/-- The binary form of an array of one dimension. -/
def encodeArray (elementOid lowerBound : Nat) (elements : List (Option (List UInt8))) :
    List UInt8 :=
  write 4 1 ++ write 4 (if elements.any Option.isNone then 1 else 0) ++ write 4 elementOid
    ++ write 4 elements.length ++ write 4 lowerBound ++ elements.flatMap encodeElement

/-- The elements of a value for an array: a list, or an array literal. -/
def elementsOf (type : String) : Json → Except EncodeFault (List Json)
  | .arr items => .ok items
  | .str s =>
    match ArrayLiteral.parse? s with
    | some items => .ok items
    | none => .error (.notArrayLiteral s type)
  | got => .error (.notArray got type)

/-- The binary form of the array of the given items, each written by `item`. -/
def encodeItems (item : Json → Except EncodeFault (Option (List UInt8)))
    (elementOid lowerBound : Nat) (items : List Json) : Except EncodeFault (List UInt8) :=
  if items.length ≤ maxLength then do
    let elements ← items.mapM fun v => do
      let bytes ← item v
      roomFor bytes
    return encodeArray elementOid lowerBound elements
  else .error .tooLarge

/-- The binary form of a value, none for null. -/
def encode : PgType → Json → Except EncodeFault (Option (List UInt8))
  | _, .null => .ok none
  | .scalar type, value => (encodeScalar type value).map some
  | .array name element elementOid lowerBound, value => do
    let items ← elementsOf name value
    let bytes ← encodeItems (encode element) elementOid lowerBound items
    return some bytes

end CriteriaSql.Wire
