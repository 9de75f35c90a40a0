/-
CriteriaSql/Statement/Select.lean

Queries: projection, filter, order, and paging by offset or by key.

Paging by key compares the tuple of the sort expressions with the tuple of
their values on the last row of the page before.
-/
import CriteriaSql.Statement.Filter

namespace CriteriaSql

/-- A query.  `keyset` is the comparison with the last row of the page before,
and `order` the text of the order. -/
structure Select where
  source : String
  filter : Clause
  keyset : Option Clause
  order : Option String
  options : Options

/-- A query for a number of rows, and the values of its placeholders. -/
structure CountQuery where
  sql : String
  params : List Json

namespace Select

/-! ### Paging by key -/

/-- The placeholders of `n` parameters after `offset` others. -/
def placeholdersFrom (offset n : Nat) : List String :=
  (List.range n).map fun i => placeholder (offset + i + 1)

/-- Texts in parentheses, with commas. -/
def tuple (texts : List String) : String :=
  "(" ++ ", ".intercalate texts ++ ")"

/-- Whether the first entry of an order descends. -/
def descends : List OrderEntry → Bool
  | entry :: _ => entry.isDescending
  | [] => false

/-- The comparison with the last row of the page before, after `offset`
parameters.  The first page has none. -/
def keysetOf (entity : Entity) (document : Bool) (offset : Nat) (order : List OrderEntry) :
    Except UsageFault (Option Clause) :=
  let lasts := order.filterMap OrderEntry.last
  if lasts.isEmpty then .ok none
  else if lasts.length ≠ order.length then .error .keysetPartial
  else do
    let expressions ← order.mapM fun o => o.expression entity document
    let comparison := if descends order then " < " else " > "
    return some
      ⟨tuple expressions ++ comparison ++ tuple (placeholdersFrom offset lasts.length), lasts⟩

/-- The page that the options ask for: paging by key needs an order, and goes
with no offset and no limit. -/
def pageOf (entity : Entity) (options : Options) (offset : Nat) :
    Except UsageFault (Option Clause) :=
  if options.pageLength.isNone then .ok none
  else if options.offset.isSome || options.limit.isSome then .error .keysetWithPaging
  else
    match options.order.getD [] with
    | [] => .error .keysetWithoutOrder
    | order => keysetOf entity (options.isDocument entity) offset order

/-! ### Building -/

/-- The text of the order: as asked, or by the primary key. -/
def orderOf (entity : Entity) (options : Options) : Except UsageFault (Option String) :=
  match options.order.getD [] with
  | [] => .ok (if entity.pk.isEmpty then none else some entity.pkList)
  | order => do
    let entries ← order.mapM fun o => o.sql entity (options.isDocument entity)
    return some (", ".intercalate entries)

/-- The query for the rows that meet a clause. -/
def withClause (entity : Entity) (filter : Clause) (options : Options) :
    Except UsageFault Select := do
  let keyset ← pageOf entity options filter.params.length
  let order ← orderOf entity options
  return { source := entity.fullName, filter, keyset, order, options }

/-- The query for the rows of a criteria value. -/
def ofJson (entity : Entity) (criteria : Json) (options : Options) : Except Error Select := do
  let filter ← Filter.ofJson entity options 0 criteria
  (withClause entity filter.clause (filter.optionsWith options)).mapError .usage

/-! ### Text and parameters -/

/-- The condition: the filter, and the comparison with the page before. -/
def condition (s : Select) : String :=
  match s.keyset with
  | some keyset => "(" ++ s.filter.conditions ++ ") AND " ++ keyset.conditions
  | none => s.filter.conditions

/-- A clause with a number, if there is one. -/
def countClause (word : String) : Option Nat → String
  | some n => word ++ toString n
  | none => ""

/-- The number of rows that are skipped and returned. -/
def window (o : Options) : String :=
  match o.pageLength with
  | some n => " FETCH FIRST " ++ toString n ++ " ROWS ONLY"
  | none => countClause " OFFSET " o.offset ++ countClause " LIMIT " o.limit

def sql (s : Select) : String :=
  "SELECT " ++ s.options.projection ++ " FROM " ++ s.options.onlyWord ++ s.source
    ++ " WHERE " ++ s.condition
    ++ (match s.order with
      | some order => " ORDER BY " ++ order
      | none => "")
    ++ window s.options

def params (s : Select) : List Json :=
  match s.keyset with
  | some keyset => s.filter.params ++ keyset.params
  | none => s.filter.params

/-- The query that counts the rows of the filter, whatever the projection, order
and page. -/
def count (s : Select) : CountQuery where
  sql := "SELECT count(*) FROM " ++ s.options.onlyWord ++ s.source ++ " WHERE "
    ++ s.filter.conditions
  params := s.filter.params

end Select

end CriteriaSql
