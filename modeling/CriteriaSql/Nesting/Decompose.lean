/-
CriteriaSql/Nesting/Decompose.lean

Nested objects from flat rows.  Rows with the same key at a level belong to the
same object; objects come in the order in which their keys are first seen.

The rows are taken one after the other.  Each adds to the draft of its root
object, and within that to the drafts of the children whose keys it holds; the
finished objects are read off the drafts at the end.
-/
import CriteriaSql.Nesting.Schema
import CriteriaSql.Nesting.SortOrder

namespace CriteriaSql

/-- A flat row: the values of its columns. -/
abbrev Row := Members

/-- An object in the making: its members so far, and for each child of its
level the drafts of that child under their keys. -/
inductive Draft where
  | mk (fields : Members) (children : List (List (String × Draft)))

namespace Draft

/-- A draft to which no row has been added. -/
def empty : Draft := ⟨[], []⟩

def fields : Draft → Members
  | ⟨fields, _⟩ => fields

def children : Draft → List (List (String × Draft))
  | ⟨_, children⟩ => children

/-- Change the draft under a key; a key that is new goes to the end. -/
def change (key : String) (f : Draft → Draft) : List (String × Draft) → List (String × Draft)
  | [] => [(key, f empty)]
  | (k, draft) :: drafts =>
    if k = key then (k, f draft) :: drafts else (k, draft) :: change key f drafts

end Draft

namespace Schema

/-! ### Keys -/

/-- The key of a row at a level with the given key columns: the text of its
single value, or of the list of its values.  There is none when all are null or
missing. -/
def rowKey (pk : List String) (row : Row) : Option String :=
  let values := pk.map row.getD
  if values.all Json.isNull then none
  else
    match values with
    | [value] => some value.text
    | values => some (Json.arr values).text

/-! ### Adding a row -/

/-- Copy the columns of a row into the members of an object. -/
def copyColumns (row : Row) (columns : List (String × String)) (fields : Members) : Members :=
  columns.foldl
    (fun fields (column, name) =>
      match row.get? column with
      | some value => fields.insert name value
      | none => fields)
    fields

mutual

/-- Add a row to the draft of one object. -/
def fill (row : Row) : Schema → Draft → Draft
  | ⟨_, columns, _, _, children⟩, draft =>
    ⟨copyColumns row columns draft.fields, fillChildren row children draft.children⟩

/-- Add a row to the drafts of the children of one object. -/
def fillChildren (row : Row) :
    List (String × Schema) → List (List (String × Draft)) → List (List (String × Draft))
  | [], _ => []
  | (_, child) :: children, drafts =>
    let own := drafts.headD []
    let filled :=
      match rowKey child.pk row with
      | some key => Draft.change key (fill row child) own
      | none => own
    filled :: fillChildren row children drafts.tail

end

/-- Add rows to the drafts of the root; `n` is the number of the next row.  A
row without a root key is an error. -/
def collect (schema : Schema) (n : Nat) (drafts : List (String × Draft)) :
    List Row → Except DecomposeFault (List (String × Draft))
  | [] => .ok drafts
  | row :: rows =>
    match rowKey schema.pk row with
    | none => .error (.nullRoot n schema.pk)
    | some key => collect schema (n + 1) (Draft.change key (fill row schema) drafts) rows

/-! ### Finishing -/

/-- The objects of a level in their final order. -/
def arrange (sort : Option String) (objects : List Json) : List Json :=
  match sort with
  | none => objects
  | some field => SortOrder.sortedBy field objects

mutual

/-- The finished objects of a level. -/
def finish : Schema → List (String × Draft) → List Json
  | ⟨_, _, _, sort, children⟩, drafts =>
    arrange sort (drafts.map fun d => .obj (attach children d.2.children d.2.fields))

/-- Put the finished children into the members of an object: all of them as a
list, or the first one alone, if there is any. -/
def attach : List (String × Schema) → List (List (String × Draft)) → Members → Members
  | [], _, fields => fields
  | (name, child) :: children, drafts, fields =>
    let objects := finish child (drafts.headD [])
    let attached :=
      if child.array then fields.insert name (.arr objects)
      else
        match objects with
        | [] => fields
        | first :: _ => fields.insert name first
    attach children drafts.tail attached

end

/-- The nested objects of flat rows. -/
def decompose (schema : Schema) (rows : List Row) : Except DecomposeFault (List Json) := do
  let drafts ← collect schema 0 [] rows
  return finish schema drafts

end Schema

end CriteriaSql
