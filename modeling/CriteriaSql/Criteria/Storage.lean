/-
CriteriaSql/Criteria/Storage.lean

Where the fields of a record are stored, and what a predicate compares there.

In a table every field is a column.  In a document table the fields lie in the
JSON column `body`: equality on a path of members is containment of the smallest
document that holds the value at that path, a list of objects is containment of
the criteria it stands in, and every other predicate compares the text found at
the path, cast to the type of the value.
-/
import CriteriaSql.Condition
import CriteriaSql.Time.Reading

namespace CriteriaSql

/-- How records are stored. -/
inductive Storage where
  | table
  | document
deriving DecidableEq, Repr

/-- The storage with the given name. -/
def Storage.ofName (name : String) : Except UsageFault Storage :=
  if name = "tableGenerator" ∨ name = "table" then .ok .table
  else if name = "docGenerator" ∨ name = "document" then .ok .document
  else .error (.unknownGenerator name)

namespace Condition

/-! ### Columns -/

/-- Compile against a column: by the rule of the operator when it has one, and
otherwise with the value bound, or written out when it is null. -/
def compileColumn (c : Condition) : Except CriteriaFault Condition :=
  match c.operation.rule with
  | some rule => c.applyRule rule
  | none => .ok (if c.value.isNull then c.withRight "NULL" else c.bindOne c.value)

/-! ### The body of a document -/

/-- A list of objects, not empty. -/
def isObjectList : Json → Bool
  | .arr items => !items.isEmpty && items.all Json.isObj
  | _ => false

/-- The type that a value is compared as: booleans, numbers and instants have
one, and a list has the type of its first item. -/
def typeOf? : Json → Option String
  | .bool _ => some "boolean"
  | .num _ => some "decimal"
  | .str s => if (Time.readRfc3339 s.toList).isSome then some "timestamptz" else none
  | .arr (first :: _) => typeOf? first
  | _ => none

/-- The smallest document with a value at the end of a path of members. -/
def documentAt (column : String) (path : List Step) (value : Json) : Json :=
  .obj [(column, path.foldr (fun step inner => .obj [(step.text, inner)]) value)]

/-- The body contains a document. -/
def containment (c : Condition) (document : Json) : Condition :=
  { c with field := Text.quoteIdent "body", operation := ⟨"@>", none⟩ }.bindOne document

/-- Whether the predicate asks for containment of its own value: equality with
one value on a path of members, without a cast. -/
def isPlainEquality (c : Condition) : Bool :=
  c.operation.operator = "=" && !c.value.isArr && c.key.cast.isNone
    && c.key.path.all Step.isMember

/-- The text at the path of the key, cast by the key or to the type of the
value. -/
def extracted (c : Condition) : String :=
  match c.key.cast, typeOf? c.value with
  | some _, _ => c.key.bodyField
  | none, some type => "(" ++ c.key.bodyPath ++ ")::" ++ type
  | none, none => "(" ++ c.key.bodyPath ++ ")"

/-- Compile against the body.  `group` is the object of the criteria that the
predicate stands in. -/
def compileBody (c : Condition) (group : Json) : Except CriteriaFault Condition :=
  if isObjectList c.value then .ok (c.containment group)
  else if c.isPlainEquality then
    .ok (c.containment (documentAt c.key.column c.key.path c.value))
  else { c with field := c.extracted }.compileColumn

end Condition

end CriteriaSql
