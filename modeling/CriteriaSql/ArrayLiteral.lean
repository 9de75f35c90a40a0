/-
CriteriaSql/ArrayLiteral.lean

Array literals such as `{a,"b c",NULL}`, the text form of arrays.

* `write` gives the literal of a JSON array: `null` as NULL, booleans and
  numbers as their JSON text, strings and the text of objects as elements,
  arrays nested;
* `parse?` reads a literal: elements become strings, an unquoted NULL becomes
  `null`, nested braces become arrays.
-/
import CriteriaSql.Json.Printer
import CriteriaSql.Text.Blank
import CriteriaSql.Text.Lowercase

namespace CriteriaSql.ArrayLiteral

open Text (isBlank trim asciiLowercase)

/-! ### Writing -/

/-- Whether a text spells NULL in any case. -/
def spellsNull (cs : List Char) : Bool :=
  asciiLowercase cs == ['n', 'u', 'l', 'l']

/-- A character that only a quoted element may hold. -/
def isSpecial (c : Char) : Bool :=
  c = ',' || c = '\x7b' || c = '\x7d' || c = '"' || c = '\\' || isBlank c

/-- The inside of a quoted element: quotes and backslashes take a backslash. -/
def backslashed : List Char → List Char
  | [] => []
  | c :: cs => if c = '"' || c = '\\' then '\\' :: c :: backslashed cs else c :: backslashed cs

/-- One element: quoted when it is empty, spells NULL or holds a special
character, and as it is otherwise. -/
def element (cs : List Char) : List Char :=
  if cs.isEmpty || spellsNull cs || cs.any isSpecial then
    '"' :: (backslashed cs ++ ['"'])
  else cs

mutual

/-- The text of one item. -/
def itemChars : Json → List Char
  | .null => ['N', 'U', 'L', 'L']
  | .bool b => (Json.bool b).chars
  | .num n => n.chars
  | .str s => element s.toList
  | .arr items => '\x7b' :: itemsChars items
  | .obj members => element (Json.obj members).chars

/-- The items that are left of an array, and its closing brace. -/
def itemsChars : List Json → List Char
  | [] => ['\x7d']
  | v :: [] => itemChars v ++ ['\x7d']
  | v :: w :: vs => itemChars v ++ ',' :: itemsChars (w :: vs)

end

/-- The literal of an array. -/
def write (items : List Json) : String :=
  String.ofList ('\x7b' :: itemsChars items)

/-! ### Reading -/

/-- Read the inside of a quoted element up to its closing quote; a backslash
stands for the character behind it. -/
def readQuoted : List Char → Option (List Char × List Char)
  | [] => none
  | '"' :: cs => some ([], cs)
  | '\\' :: c :: cs => (readQuoted cs).map fun r => (c :: r.1, r.2)
  | c :: cs => if c = '\\' then none else (readQuoted cs).map fun r => (c :: r.1, r.2)

/-- Neither a comma nor a closing brace. -/
def isBare (c : Char) : Bool :=
  c != ',' && c != '\x7d'

/-- The value of an unquoted element, blanks around it dropped. -/
def bareValue (cs : List Char) : Json :=
  let cs := trim cs
  if spellsNull cs then .null else .str (String.ofList cs)

/-- Read items with a comma between each two, up to the closing brace.  A comma
that is not nearer to the end of the text than the start ends the reading. -/
def readItems (cs : List Char) : Option (List Json × List Char) :=
  let item : Option (Json × List Char) :=
    match cs with
    | [] => none
    | '\x7b' :: '\x7d' :: rest => some (.arr [], rest)
    | '\x7b' :: rest => (readItems rest).map fun r => (.arr r.1, r.2)
    | '"' :: rest => (readQuoted rest).map fun r => (.str (String.ofList r.1), r.2)
    | c :: rest => some (bareValue ((c :: rest).takeWhile isBare), (c :: rest).dropWhile isBare)
  match item with
  | some (v, '\x7d' :: rest) => some ([v], rest)
  | some (v, ',' :: rest) =>
    if rest.length < cs.length then (readItems rest).map fun r => (v :: r.1, r.2) else none
  | _ => none
termination_by cs.length

/-- The array that a literal writes; blanks around the literal are dropped. -/
def parse? (text : String) : Option (List Json) :=
  match trim text.toList with
  | ['\x7b', '\x7d'] => some []
  | '\x7b' :: rest =>
    match readItems rest with
    | some (items, []) => some items
    | _ => none
  | _ => none

end CriteriaSql.ArrayLiteral
