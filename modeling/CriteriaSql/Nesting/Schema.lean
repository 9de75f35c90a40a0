/-
CriteriaSql/Nesting/Schema.lean

The shape of nested objects in flat rows.  Each level names the columns that
identify an object, the columns copied into it under their new names, whether
its objects form a list and how that list is sorted, and its children.

A schema is read from a JSON object: `pk`, `columns`, `array` and `sort` belong
to the level itself, and every other member is a child.
-/
import CriteriaSql.Error

namespace CriteriaSql

/-- One level of nested objects. -/
structure Schema where
  pk : List String
  columns : List (String × String)
  array : Bool
  sort : Option String
  children : List (String × Schema)
deriving Repr

namespace Schema

/-! ### Building -/

/-- A level with the given key columns and nothing else. -/
def keyed (pk : List String) : Schema := ⟨pk, [], false, none, []⟩

def withColumns (s : Schema) (columns : List (String × String)) : Schema := { s with columns }

def asArray (s : Schema) : Schema := { s with array := true }

def sortedBy (s : Schema) (field : String) : Schema := { s with sort := some field }

def withChild (s : Schema) (name : String) (child : Schema) : Schema :=
  { s with children := s.children ++ [(name, child)] }

/-! ### Members of the level itself -/

/-- Texts, or the fault of the first item that is none. -/
def strings (fault : Json → SchemaFault) : List Json → Except SchemaFault (List String)
  | [] => .ok []
  | .str s :: items => do
    let ss ← strings fault items
    return s :: ss
  | got :: _ => .error (fault got)

/-- The key columns: one name, or a list of names that is not empty. -/
def pkOf : Json → Except SchemaFault (List String)
  | .str s => .ok [s]
  | .arr [] => .error .emptyPk
  | .arr items => strings .pkItem items
  | got => .error (.pkShape got)

/-- Columns with the names they get. -/
def renamings : List (String × Json) → Except SchemaFault (List (String × String))
  | [] => .ok []
  | (column, .str name) :: members => do
    let rest ← renamings members
    return (column, name) :: rest
  | (column, got) :: _ => .error (.columnTarget column got)

/-- The copied columns: none, a list of names that stay, or a map to new
names. -/
def columnsOf : Json → Except SchemaFault (List (String × String))
  | .null => .ok []
  | .arr items => do
    let names ← strings .columnName items
    return names.map fun name => (name, name)
  | .obj members => renamings members
  | got => .error (.columnsShape got)

/-- The member `array`; false when there is none. -/
def arrayOf : Option Json → Except SchemaFault Bool
  | none => .ok false
  | some (.bool b) => .ok b
  | some _ => .error (.mistyped "a boolean")

/-- The member `sort`; none when there is none or it is null. -/
def sortOf : Option Json → Except SchemaFault (Option String)
  | none | some .null => .ok none
  | some (.str s) => .ok (some s)
  | some _ => .error (.mistyped "a string")

/-- The member `pk`, which every level has. -/
def requiredPk : Option Json → Except SchemaFault (List String)
  | none => .error .missingPk
  | some v => pkOf v

/-- Whether a member belongs to the level itself. -/
def isOwn (name : String) : Bool :=
  name = "pk" || name = "columns" || name = "array" || name = "sort"

/-! ### Whole schemas -/

mutual

/-- The schema that a JSON value describes. -/
def ofJson : Json → Except SchemaFault Schema
  | .obj members => do
    let array ← arrayOf (Members.get? members "array")
    let sort ← sortOf (Members.get? members "sort")
    let pk ← requiredPk (Members.get? members "pk")
    let columns ← columnsOf (Members.getD members "columns")
    let children ← childrenOf members
    return { pk, columns, array, sort, children }
  | _ => .error (.mistyped "an object")

/-- The children among the members of an object. -/
def childrenOf : List (String × Json) → Except SchemaFault (List (String × Schema))
  | [] => .ok []
  | (name, value) :: members =>
    if isOwn name then childrenOf members
    else
      match ofJson value with
      | .error fault => .error (.child name fault)
      | .ok child => do
        let children ← childrenOf members
        return (name, child) :: children

end

end Schema

end CriteriaSql
