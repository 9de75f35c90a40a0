/-
CriteriaSql/Key/Basic.lean

The key of a predicate: a column, a path into its JSON, a cast, and the text of
an operator.  A key renders to the SQL expression that it compares.

A path of one step is `->>` with the step as a literal, or as a bare number for
an index; a longer path is `#>>` with the steps as an array literal.  In a
document table the same field lives in the column `body`, where the column name
is the first step of the path.
-/
import CriteriaSql.ArrayLiteral
import CriteriaSql.Text.Delimited

namespace CriteriaSql

/-- A step of a path: the name of a member, or a position in an array. -/
inductive Step where
  | member (name : String)
  | index (position : String)
deriving DecidableEq, Repr

/-- The text of a step. -/
def Step.text : Step → String
  | .member name => name
  | .index position => position

/-- Whether a step is the name of a member. -/
def Step.isMember : Step → Bool
  | .member _ => true
  | .index _ => false

/-- The key of a predicate.  The operator text is in lower case with single
spaces, and empty for equality. -/
structure Key where
  column : String
  path : List Step
  cast : Option String
  operatorText : String
deriving DecidableEq, Repr

namespace Key

/-! ### Paths -/

/-- An optional minus sign and digits. -/
def isPosition (text : String) : Bool :=
  let digits := match text.toList with
    | '-' :: cs => cs
    | cs => cs
  !digits.isEmpty && digits.all Char.isDigit

/-- The steps as the text of an array literal. -/
def pathLiteral (path : List Step) : String :=
  "\x7b" ++ ",".intercalate
    (path.map fun s => String.ofList (ArrayLiteral.element s.text.toList)) ++ "\x7d"

/-- The expression that follows a path from `base`. -/
def followPath (base : String) : List Step → String
  | [] => base
  | [.member name] => base ++ "->>" ++ Text.quoteLiteral name
  | [.index position] =>
    if isPosition position then base ++ "->>" ++ position
    else base ++ "->>" ++ Text.quoteLiteral position
  | path => base ++ "#>>" ++ Text.quoteLiteral (pathLiteral path)

/-! ### Casts -/

/-- A character that a plain type name is made of. -/
def isTypeChar (c : Char) : Bool :=
  c.isAlphanum || c = '_' || c = '[' || c = ']' || c = '(' || c = ')' || c = ','

/-- A type name as it is written after a cast: plain when it is made of
ordinary characters, and as a delimited identifier otherwise. -/
def typeName (type : String) : String :=
  if !type.isEmpty && type.toList.all isTypeChar then type else Text.quoteIdent type

/-- Cast an expression, in parentheses when `wrap` is set. -/
def applyCast (expression : String) (wrap : Bool) : Option String → String
  | none => expression
  | some type =>
    if wrap then "(" ++ expression ++ ")::" ++ typeName type
    else expression ++ "::" ++ typeName type

/-! ### Expressions -/

/-- Whether the key reaches into JSON. -/
def isJson (k : Key) : Bool :=
  !k.path.isEmpty

/-- The expression over the column of the key's name. -/
def field (k : Key) : String :=
  applyCast (followPath (Text.quoteIdent k.column) k.path) k.isJson k.cast

/-- The expression over the column `body`, without the cast. -/
def bodyPath (k : Key) : String :=
  followPath (Text.quoteIdent "body") (.member k.column :: k.path)

/-- The expression over the column `body`. -/
def bodyField (k : Key) : String :=
  applyCast k.bodyPath true k.cast

end Key

end CriteriaSql
