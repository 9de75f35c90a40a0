/-
CriteriaSql/Condition.lean

One predicate on its way to SQL: a key, an operator and a value, what has been
bound so far, and the number of the next placeholder.

The value rules turn a condition into one with a finished right side.  Each
binds exactly the parameters that it writes placeholders for.
-/
import CriteriaSql.Error
import CriteriaSql.Key.Parser
import CriteriaSql.Operator

namespace CriteriaSql

/-- A predicate in the middle of its compilation.  `offset` is the number of
the next placeholder; it has no bound, and the overflow of a machine word that
counts placeholders is left out.  `right` is the finished right side. -/
structure Condition where
  key : Key
  field : String
  operation : Operation
  value : Json
  right : Option String
  params : List Json
  offset : Nat

/-- The placeholder of the parameter with the given number. -/
def placeholder (n : Nat) : String :=
  "$" ++ toString n

namespace Condition

/-- A condition with nothing bound. -/
def start (key : Key) (operation : Operation) (value : Json) (offset : Nat) : Condition :=
  { key, field := key.field, operation, value, right := none, params := [], offset }

/-- Bind values to the next placeholders. -/
def bind (c : Condition) (values : List Json) : Condition :=
  { c with params := c.params ++ values, offset := c.offset + values.length }

/-- The placeholders that the next `n` values get. -/
def placeholders (c : Condition) (n : Nat) : List String :=
  (List.range n).map fun i => placeholder (c.offset + i)

/-- Set the right side. -/
def withRight (c : Condition) (right : String) : Condition :=
  { c with right := some right }

/-- Set the SQL operator. -/
def withOperator (c : Condition) (operator : String) : Condition :=
  { c with operation := { c.operation with operator } }

/-- Bind one value and make its placeholder the right side. -/
def bindOne (c : Condition) (value : Json) : Condition :=
  (c.bind [value]).withRight (placeholder c.offset)

/-- The finished text.  A condition without an operator is a constant that
stands in its field. -/
def predicate (c : Condition) : String :=
  if c.operation.operator = "" then c.field
  else
    match c.right with
    | some right => c.field ++ " " ++ c.operation.operator ++ " " ++ right
    | none => c.field ++ " " ++ c.operation.operator

/-! ### Value rules -/

/-- BETWEEN with two bounds from a list of two. -/
def between (c : Condition) : Except CriteriaFault Condition :=
  match c.value with
  | .arr [low, high] =>
    .ok ((c.bind [low, high]).withRight
      (placeholder c.offset ++ " AND " ++ placeholder (c.offset + 1)))
  | got => .error (.betweenBounds c.key.column got)

/-- Membership in a list, negated for every operator but equality.  Nothing is
a member of the empty list. -/
def membership (c : Condition) : Except CriteriaFault Condition :=
  let negated := c.operation.operator ≠ "="
  match c.value with
  | .arr [] =>
    .ok { c.withOperator "" with field := if negated then "TRUE" else "FALSE", right := none }
  | .arr items =>
    .ok (((c.withOperator (if negated then "NOT IN" else "IN")).bind items).withRight
      ("(" ++ ", ".intercalate (c.placeholders items.length) ++ ")"))
  | _ => .error (.membershipList c.key.column)

/-- The SQL constant of null or a boolean. -/
def constant? : Json → Option String
  | .null => some "NULL"
  | .bool true => some "TRUE"
  | .bool false => some "FALSE"
  | _ => none

/-- IS or IS NOT with null or a boolean written out. -/
def identity (c : Condition) : Except CriteriaFault Condition :=
  match constant? c.value with
  | none => .error (.isLiteral c.key.column c.value)
  | some constant =>
    let plain := c.operation.operator = "=" ∨ c.operation.operator = "IS"
    .ok ((c.withOperator (if plain then "IS" else "IS NOT")).withRight constant)

/-- Equality: null and booleans by identity, lists by membership, all else
bound. -/
def equality (c : Condition) : Except CriteriaFault Condition :=
  match c.value with
  | .null | .bool _ => c.identity
  | .arr _ => c.membership
  | value => .ok (c.bindOne value)

/-- A list bound as one array literal, and any other value bound as it is. -/
def arrayLiteral (c : Condition) : Condition :=
  match c.value with
  | .arr items => c.bindOne (.str (ArrayLiteral.write items))
  | value => c.bindOne value

/-- Apply a value rule. -/
def applyRule (c : Condition) : ValueRule → Except CriteriaFault Condition
  | .equality => c.equality
  | .between => c.between
  | .is => c.identity
  | .arrayLiteral => .ok c.arrayLiteral

end Condition

end CriteriaSql
