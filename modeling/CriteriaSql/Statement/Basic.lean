/-
CriteriaSql/Statement/Basic.lean

Finished statements of all kinds: their text, parameters and options.
-/
import CriteriaSql.Statement.Insert
import CriteriaSql.Statement.Select
import CriteriaSql.Statement.Update

namespace CriteriaSql

/-- A finished statement. -/
inductive Statement where
  | select (s : Select)
  | insert (i : Insert)
  | update (u : Update)
  | delete (d : Delete)

namespace Statement

/-- The name of the kind of statement. -/
def kind : Statement → String
  | .select _ => "SELECT"
  | .insert _ => "INSERT"
  | .update _ => "UPDATE"
  | .delete _ => "DELETE"

/-- The text, with placeholders `$1`, `$2`, … for the parameters. -/
def sql : Statement → String
  | .select s => s.sql
  | .insert i => i.sql
  | .update u => u.sql
  | .delete d => d.sql

/-- The values of the placeholders, in order. -/
def params : Statement → List Json
  | .select s => s.params
  | .insert i => i.params
  | .update u => u.params
  | .delete d => d.params

/-- The options in force. -/
def options : Statement → Options
  | .select s => s.options
  | .insert i => i.options
  | .update u => u.options
  | .delete d => d.options

end Statement

end CriteriaSql
