/-
CriteriaSql/Statement/Filter.lean

The rows that a statement is about.  A number, a UUID, or an object with the
single key column as its only member looks a row up by its key; every other
value is read as criteria.
-/
import CriteriaSql.Criteria.Where
import CriteriaSql.Options.Basic
import CriteriaSql.Uuid

namespace CriteriaSql

/-- The clause of a statement, and whether it looks up a row by its key. -/
structure Filter where
  clause : Clause
  byKey : Bool

namespace Filter

/-! ### Look-up by key -/

/-- A number or a text. -/
def isKeyValue : Json → Bool
  | .num _ | .str _ => true
  | _ => false

/-- The key column for a value that stands alone. -/
def soleKey (entity : Entity) : Except UsageFault String :=
  match entity.pk with
  | [column] => .ok column
  | _ => .error (.lookupKey entity.fullName)

/-- The key column and the value to be looked up in it, if the criteria are a
look-up. -/
def lookup? (entity : Entity) : Json → Except Error (Option (String × Json))
  | .num n => do
    let column ← (soleKey entity).mapError .usage
    return some (column, .num n)
  | .str s =>
    if s = "*" then .ok none
    else if (Uuid.parse? s.toList).isSome then do
      let column ← (soleKey entity).mapError .usage
      return some (column, .str s)
    else .error (.invalidCriteria (.notLookup s))
  | .obj [(name, value)] =>
    if entity.pk = [name] ∧ isKeyValue value then .ok (some (name, value)) else .ok none
  | _ => .ok none

/-- The clause that looks up a value in a key column, after `offset`
parameters. -/
def lookupClause (column : String) (value : Json) (offset : Nat) : Clause :=
  ⟨Text.quoteIdent column ++ " = " ++ placeholder (offset + 1), [value]⟩

/-! ### Criteria -/

/-- How the rows are stored: by the name in the options, if there is one. -/
def storageOf (entity : Entity) (options : Options) : Except UsageFault Storage :=
  match options.generator with
  | some name => Storage.ofName name
  | none => .ok (if options.isDocument entity then .document else .table)

/-- The filter of a criteria value, after `offset` parameters. -/
def ofJson (entity : Entity) (options : Options) (offset : Nat) (value : Json) :
    Except Error Filter := do
  match ← lookup? entity value with
  | some (column, key) => return ⟨lookupClause column key offset, true⟩
  | none => do
    let storage ← (storageOf entity options).mapError .usage
    let criteria ← (Criteria.ofJson value).mapError .invalidCriteria
    let clause ← (Criteria.compile ⟨storage, entity.pk⟩ offset criteria).mapError .invalidCriteria
    return ⟨clause, false⟩

/-- The options of a statement with this filter: a look-up by key returns a
single row. -/
def optionsWith (f : Filter) (options : Options) : Options :=
  if f.byKey then options.asSingle else options

end Filter

end CriteriaSql
