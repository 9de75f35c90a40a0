/-
CriteriaSql/Statement/Update.lean

Changes of rows, and their removal.  In a table each change sets a column, and
names that are no known column are left out; in a document table all changes
are merged into the body as one document.
-/
import CriteriaSql.Statement.Filter

namespace CriteriaSql

/-! ### Update -/

/-- A change of the rows of a clause.  `assignments` are the texts of the SET
list and `values` their parameters, which go before those of the filter. -/
structure Update where
  source : String
  assignments : List String
  values : List Json
  filter : Clause
  options : Options

namespace Update

/-- The assignments of changes to columns, after `offset` parameters. -/
def columnAssignments (offset : Nat) : List (String × Json) → List String
  | [] => []
  | (column, _) :: changes =>
    (Text.quoteIdent column ++ " = " ++ placeholder (offset + 1))
      :: columnAssignments (offset + 1) changes

/-- The SET list of changes and its parameters. -/
def assignmentsOf (entity : Entity) (document : Bool) (changes : List (String × Json)) :
    List String × List Json :=
  if document then
    if changes.isEmpty then ([], [])
    else
      ([Text.quoteIdent "body" ++ " = " ++ Text.quoteIdent "body" ++ " || " ++ placeholder 1
          ++ "::jsonb"],
        [.obj changes])
  else
    let known := changes.filter fun change => entity.hasColumn change.1
    (columnAssignments 0 known, known.map Prod.snd)

/-- The change of the rows of a criteria value. -/
def ofJson (entity : Entity) (changes criteria : Json) (options : Options) :
    Except Error Update :=
  match changes with
  | .obj members =>
    let (assignments, values) := assignmentsOf entity (options.isDocument entity) members
    if assignments.isEmpty then .error (.usage (.noChanges entity.fullName))
    else do
      let filter ← Filter.ofJson entity options values.length criteria
      return { source := entity.fullName, assignments, values, filter := filter.clause,
               options := filter.optionsWith options }
  | got => .error (.invalidCriteria (.notChanges got))

def sql (u : Update) : String :=
  "UPDATE " ++ u.options.onlyWord ++ u.source ++ " SET " ++ ", ".intercalate u.assignments
    ++ " WHERE " ++ u.filter.conditions ++ u.options.returning

def params (u : Update) : List Json :=
  u.values ++ u.filter.params

end Update

/-! ### Delete -/

/-- A removal of the rows of a clause. -/
structure Delete where
  source : String
  filter : Clause
  options : Options

namespace Delete

/-- The removal of the rows of a criteria value. -/
def ofJson (entity : Entity) (criteria : Json) (options : Options) : Except Error Delete := do
  let filter ← Filter.ofJson entity options 0 criteria
  return { source := entity.fullName, filter := filter.clause,
           options := filter.optionsWith options }

def sql (d : Delete) : String :=
  "DELETE FROM " ++ d.options.onlyWord ++ d.source ++ " WHERE " ++ d.filter.conditions
    ++ d.options.returning

def params (d : Delete) : List Json :=
  d.filter.params

end Delete

end CriteriaSql
