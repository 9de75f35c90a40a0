/-
CriteriaSql/Options/Order.lean

Entries of an order: what is sorted by, in which direction, where nulls go, and
for paging by key the value on the last row of the page before.

An entry is read from an object, or from the list of its values in the order
field, expression, direction, cast, nulls, last.
-/
import CriteriaSql.Entity
import CriteriaSql.Key.Parser
import CriteriaSql.Options.Reading
import CriteriaSql.Text.Lowercase

namespace CriteriaSql

inductive Direction where
  | ascending
  | descending
deriving DecidableEq, Repr

namespace Direction

/-- The direction that a word names, in any case of its letters. -/
def ofWord (word : String) : Except UsageFault Direction :=
  match String.ofList (Text.asciiLowercase word.toList) with
  | "asc" => .ok .ascending
  | "desc" => .ok .descending
  | other => .error (.unknownDirection other)

def sql : Direction → String
  | .ascending => " ASC"
  | .descending => " DESC"

end Direction

/-- Where nulls are placed. -/
inductive NullsPlacement where
  | first
  | last
deriving DecidableEq, Repr

namespace NullsPlacement

/-- The placement that a word names, in any case of its letters. -/
def ofWord (word : String) : Except UsageFault NullsPlacement :=
  match String.ofList (Text.asciiLowercase word.toList) with
  | "first" => .ok .first
  | "last" => .ok .last
  | other => .error (.unknownNulls other)

def sql : NullsPlacement → String
  | .first => " NULLS FIRST"
  | .last => " NULLS LAST"

end NullsPlacement

/-- One entry of an order.  A field goes before an expression. -/
structure OrderEntry where
  field : Option String
  expr : Option String
  direction : Option Direction
  cast : Option String
  nulls : Option NullsPlacement
  last : Option Json
deriving Repr

namespace OrderEntry

/-! ### Building -/

/-- The entry with nothing set. -/
def empty : OrderEntry := ⟨none, none, none, none, none, none⟩

def byField (field : String) : OrderEntry := { empty with field := some field }

def byExpr (expr : String) : OrderEntry := { empty with expr := some expr }

def ascending (o : OrderEntry) : OrderEntry := { o with direction := some .ascending }

def descending (o : OrderEntry) : OrderEntry := { o with direction := some .descending }

def withCast (o : OrderEntry) (cast : String) : OrderEntry := { o with cast := some cast }

def withNulls (o : OrderEntry) (nulls : NullsPlacement) : OrderEntry :=
  { o with nulls := some nulls }

/-- Continue after a row with the given value. -/
def after (o : OrderEntry) (last : Json) : OrderEntry := { o with last := some last }

/-! ### From JSON -/

/-- A direction, if any. -/
def directionOf : Json → Except OptionsFault (Option Direction)
  | .null => .ok none
  | .str word => ((Direction.ofWord word).map some).mapError .usage
  | _ => .error (.mistyped "a sort direction")

/-- A placement of nulls, if any. -/
def nullsOf : Json → Except OptionsFault (Option NullsPlacement)
  | .null => .ok none
  | .str word => ((NullsPlacement.ofWord word).map some).mapError .usage
  | _ => .error (.mistyped "a placement of nulls")

/-- Set what one member says; members of other names say nothing. -/
def withMember (o : OrderEntry) (name : String) (value : Json) :
    Except OptionsFault OrderEntry :=
  match name with
  | "field" => do return { o with field := ← OptionValue.text? value }
  | "expr" => do return { o with expr := ← OptionValue.text? value }
  | "direction" => do return { o with direction := ← directionOf value }
  | "type" => do return { o with cast := ← OptionValue.text? value }
  | "nulls" => do return { o with nulls := ← nullsOf value }
  | "last" => .ok { o with last := if value.isNull then none else some value }
  | _ => .ok o

/-- Set what members say, in order. -/
def withMembers (o : OrderEntry) : List (String × Json) → Except OptionsFault OrderEntry
  | [] => .ok o
  | (name, value) :: members => do
    let next ← o.withMember name value
    next.withMembers members

/-- The names of the values of an entry that is a list. -/
def positions : List String :=
  ["field", "expr", "direction", "type", "nulls", "last"]

/-- The entry that a JSON value describes. -/
def ofJson : Json → Except OptionsFault OrderEntry
  | .obj members => empty.withMembers members
  | .arr items => do
    let entry ← empty.withMembers (positions.zip items)
    if items.length ≤ positions.length then return entry
    else .error (.mistyped "an order entry")
  | _ => .error (.mistyped "an order entry")

/-- The entries that JSON values describe. -/
def ofItems : List Json → Except OptionsFault (List OrderEntry)
  | [] => .ok []
  | item :: items => do
    let entry ← ofJson item
    let entries ← ofItems items
    return entry :: entries

/-- A list of entries, if any. -/
def listOf : Json → Except OptionsFault (Option (List OrderEntry))
  | .null => .ok none
  | .arr items => (ofItems items).map some
  | _ => .error (.mistyped "a list of order entries")

/-! ### To SQL -/

def isDescending (o : OrderEntry) : Bool :=
  o.direction = some .descending

/-- What a field is sorted by: in a document table the text in the body, unless
it is a key column or a known column of the entity. -/
def fieldExpression (entity : Entity) (document : Bool) (field : String) : String :=
  let key := Key.parse field
  if document && !entity.isPk key.column && !entity.columns.contains key.column then
    key.bodyPath
  else key.field

/-- The expression that is sorted by. -/
def expression (o : OrderEntry) (entity : Entity) (document : Bool) :
    Except UsageFault String := do
  let base ←
    match o.field, o.expr with
    | some field, _ => .ok (fieldExpression entity document field)
    | none, some expr => .ok expr
    | none, none => .error .emptyOrderEntry
  match o.cast with
  | some cast => return "(" ++ base ++ ")::" ++ cast
  | none => return base

/-- The whole entry: expression, direction and placement of nulls. -/
def sql (o : OrderEntry) (entity : Entity) (document : Bool) : Except UsageFault String := do
  let expression ← o.expression entity document
  return expression ++ (o.direction.map Direction.sql).getD ""
    ++ (o.nulls.map NullsPlacement.sql).getD ""

end OrderEntry

end CriteriaSql
