/-
CriteriaSql/Options/Basic.lean

What a caller may ask of a statement: the fields that are returned, their order
and number, how the source is stored, and how the statement is run.

Options are built one by one or read from a JSON object, member by member;
members of other names are passed over, and the first fault ends the reading.
-/
import CriteriaSql.Nesting.Schema
import CriteriaSql.Options.Order

namespace CriteriaSql

/-- The options of a statement.  `exprs` are SQL texts under their names;
`pageLength` asks for paging by key; `build` asks for the text alone. -/
structure Options where
  fields : List String
  exprs : List (String × String)
  only : Bool
  order : Option (List OrderEntry)
  offset : Option Nat
  limit : Option Nat
  pageLength : Option Nat
  single : Bool
  document : Bool
  generator : Option String
  build : Bool
  stream : Bool
  onConflictIgnore : Bool
  deepInsert : Bool
  decompose : Option Schema
deriving Repr

namespace Options

/-! ### Building -/

/-- Nothing asked. -/
def none : Options :=
  { fields := [], exprs := [], only := false, order := .none, offset := .none,
    limit := .none, pageLength := .none, single := false, document := false,
    generator := .none, build := false, stream := false, onConflictIgnore := false,
    deepInsert := false, decompose := .none }

def withFields (o : Options) (fields : List String) : Options := { o with fields }

def withExpr (o : Options) (name sql : String) : Options :=
  { o with exprs := o.exprs ++ [(name, sql)] }

def asOnly (o : Options) : Options := { o with only := true }

def withOrder (o : Options) (entry : OrderEntry) : Options :=
  { o with order := some (o.order.getD [] ++ [entry]) }

def withOffset (o : Options) (offset : Nat) : Options := { o with offset := some offset }

def withLimit (o : Options) (limit : Nat) : Options := { o with limit := some limit }

def withPageLength (o : Options) (pageLength : Nat) : Options :=
  { o with pageLength := some pageLength }

def asSingle (o : Options) : Options := { o with single := true }

def asDocument (o : Options) : Options := { o with document := true }

def withGenerator (o : Options) (name : String) : Options := { o with generator := some name }

def buildOnly (o : Options) : Options := { o with build := true }

def asStream (o : Options) : Options := { o with stream := true }

def ignoringConflicts (o : Options) : Options := { o with onConflictIgnore := true }

def asDeepInsert (o : Options) : Options := { o with deepInsert := true }

def withDecompose (o : Options) (schema : Schema) : Options :=
  { o with decompose := some schema }

/-! ### From JSON -/

/-- A schema, if any. -/
def schemaOf : Json → Except OptionsFault (Option Schema)
  | .null => .ok .none
  | value => ((Schema.ofJson value).map some).mapError .schema

open OptionValue in
/-- Set what one member says; members of other names say nothing. -/
def withMember (o : Options) (name : String) (value : Json) : Except OptionsFault Options :=
  match name with
  | "fields" => do return { o with fields := ← oneOrMany value }
  | "exprs" => do return { o with exprs := ← expressions value }
  | "only" => do return { o with only := ← flag value }
  | "order" => do return { o with order := ← OrderEntry.listOf value }
  | "offset" => do return { o with offset := ← count? value }
  | "limit" => do return { o with limit := ← count? value }
  | "pageLength" => do return { o with pageLength := ← count? value }
  | "single" => do return { o with single := ← flag value }
  | "document" => do return { o with document := ← flag value }
  | "generator" => do return { o with generator := ← text? value }
  | "build" => do return { o with build := ← flag value }
  | "stream" => do return { o with stream := ← flag value }
  | "onConflictIgnore" => do return { o with onConflictIgnore := ← flag value }
  | "deepInsert" => do return { o with deepInsert := ← flag value }
  | "decompose" => do return { o with decompose := ← schemaOf value }
  | _ => .ok o

/-- Set what members say, in order. -/
def withMembers (o : Options) : List (String × Json) → Except OptionsFault Options
  | [] => .ok o
  | (name, value) :: members => do
    let next ← o.withMember name value
    next.withMembers members

/-- The options that a JSON value describes; null asks for nothing. -/
def ofJson : Json → Except OptionsFault Options
  | .null => .ok none
  | .obj members => none.withMembers members
  | _ => .error (.mistyped "an object")

/-! ### To SQL -/

/-- One returned field: a star, or the expression of a key. -/
def fieldSql (field : String) : String :=
  if field = "*" then field else (Key.parse field).field

/-- What is returned: the fields and then the named expressions, or everything
when none is given. -/
def projection (o : Options) : String :=
  let columns :=
    o.fields.map fieldSql ++ o.exprs.map fun e => e.2 ++ " AS " ++ Text.quoteIdent e.1
  if columns.isEmpty then "*" else ", ".intercalate columns

/-- The clause that returns the rows of a change. -/
def returning (o : Options) : String :=
  " RETURNING " ++ o.projection

/-- The word that leaves out the rows of descendant tables. -/
def onlyWord (o : Options) : String :=
  if o.only then "ONLY " else ""

/-- Whether the entity is a document table, by itself or by the options. -/
def isDocument (o : Options) (entity : Entity) : Bool :=
  o.document || entity.isDocument

end Options

end CriteriaSql
