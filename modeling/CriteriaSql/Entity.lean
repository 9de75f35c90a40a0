/-
CriteriaSql/Entity.lean

Tables, views and document tables: their names, primary keys and columns.
-/
import CriteriaSql.Text.Delimited

namespace CriteriaSql

/-- What is known of a table or view.  A view has no primary key; an empty list
of columns means that the columns are not known. -/
structure Entity where
  schema : String
  name : String
  pk : List String
  columns : List String
  isDocument : Bool
deriving DecidableEq, Repr

namespace Entity

/-- A table without primary key and known columns. -/
def table (schema name : String) : Entity := ⟨schema, name, [], [], false⟩

/-- A view. -/
def view (schema name : String) : Entity := table schema name

/-- A document table: the key `id` and the columns of every document table. -/
def document (schema name : String) : Entity :=
  ⟨schema, name, ["id"], ["id", "body", "search", "created_at", "updated_at"], true⟩

def withPk (e : Entity) (pk : List String) : Entity := { e with pk }

def withColumns (e : Entity) (columns : List String) : Entity := { e with columns }

/-- The name with its schema, or alone when the schema is empty. -/
def fullName (e : Entity) : String :=
  if e.schema = "" then Text.quoteIdent e.name
  else Text.quoteIdent e.schema ++ "." ++ Text.quoteIdent e.name

/-- Without primary key. -/
def isView (e : Entity) : Bool := e.pk.isEmpty

/-- A column of the primary key. -/
def isPk (e : Entity) (field : String) : Bool := e.pk.contains field

/-- A known column; every name is one when the columns are not known. -/
def hasColumn (e : Entity) (field : String) : Bool :=
  e.columns.isEmpty || e.columns.contains field

/-- The columns of the primary key, quoted, with commas. -/
def pkList (e : Entity) : String :=
  ", ".intercalate (e.pk.map Text.quoteIdent)

end Entity

end CriteriaSql
