/-
CriteriaSql/Criteria/Where.lean

The WHERE clause of criteria: its text and the parameters of its placeholders.

Entries are joined with AND; a group is its branches, each in parentheses,
joined with OR or AND, in parentheses as a whole.  No entries mean TRUE, and a
group without branches is FALSE for `or` and TRUE for `and`.  The placeholders
are numbered from left to right, one for each parameter.
-/
import CriteriaSql.Criteria.Basic
import CriteriaSql.Criteria.Storage

namespace CriteriaSql

/-- A boolean SQL expression and the values of its placeholders. -/
structure Clause where
  conditions : String
  params : List Json

namespace Clause

/-- The clause that every row meets. -/
def always : Clause := ⟨"TRUE", []⟩

/-- All parameters, in order. -/
def allParams (clauses : List Clause) : List Json :=
  clauses.flatMap Clause.params

/-- The clauses joined with AND. -/
def conjunction : List Clause → Clause
  | [] => always
  | clauses => ⟨" AND ".intercalate (clauses.map Clause.conditions), allParams clauses⟩

/-- What a group without branches means. -/
def emptyGroup : Connective → Clause
  | .any => ⟨"FALSE", []⟩
  | .all => ⟨"TRUE", []⟩

/-- The word that joins the branches of a group. -/
def joiner : Connective → String
  | .any => " OR "
  | .all => " AND "

/-- The branches of a group joined by its connective. -/
def group (connective : Connective) : List Clause → Clause
  | [] => emptyGroup connective
  | branches =>
    ⟨"(" ++ (joiner connective).intercalate
        (branches.map fun b => "(" ++ b.conditions ++ ")") ++ ")",
      allParams branches⟩

end Clause

/-- What criteria are compiled against: the storage of the records, and the
primary-key columns, which are columns in a document table too. -/
structure Target where
  storage : Storage
  pk : List String

namespace Criteria

/-- The clause of one predicate in the criteria `siblings`, after `offset`
parameters. -/
def predicateClause (target : Target) (siblings : Criteria) (offset : Nat) (key : String)
    (value : Json) : Except CriteriaFault Clause := do
  let key := Key.parse key
  let start := Condition.start key (Operation.resolve key.operatorText) value (offset + 1)
  let condition ←
    if target.storage = .document ∧ key.column ∉ target.pk then
      start.compileBody siblings.toJson
    else start.compileColumn
  return ⟨condition.predicate, condition.params⟩

mutual

/-- The clause of one entry of the criteria `siblings`, after `offset`
parameters. -/
def entryClause (target : Target) (siblings : Criteria) (offset : Nat) :
    Criterion → Except CriteriaFault Clause
  | .predicate key value => predicateClause target siblings offset key value
  | .group connective branches => do
    let clauses ← branchClauses target offset branches
    return Clause.group connective clauses

/-- The clauses of entries of the criteria `siblings`, after `offset`
parameters. -/
def entryClauses (target : Target) (siblings : Criteria) (offset : Nat) :
    List Criterion → Except CriteriaFault (List Clause)
  | [] => .ok []
  | entry :: entries => do
    let clause ← entryClause target siblings offset entry
    let clauses ← entryClauses target siblings (offset + clause.params.length) entries
    return clause :: clauses

/-- The clauses of branches, after `offset` parameters. -/
def branchClauses (target : Target) (offset : Nat) :
    List (List Criterion) → Except CriteriaFault (List Clause)
  | [] => .ok []
  | branch :: branches => do
    let entries ← entryClauses target branch offset branch
    let clause := Clause.conjunction entries
    let clauses ← branchClauses target (offset + clause.params.length) branches
    return clause :: clauses

end

/-- The clause of criteria, with placeholders from `$(offset + 1)` on. -/
def compile (target : Target) (offset : Nat) (criteria : Criteria) :
    Except CriteriaFault Clause := do
  let clauses ← entryClauses target criteria offset criteria
  return Clause.conjunction clauses

/-- The clause of a criteria value over a table, with placeholders from `$1`
on. -/
def whereClause (value : Json) : Except CriteriaFault Clause := do
  let criteria ← ofJson value
  compile ⟨.table, []⟩ 0 criteria

end Criteria

end CriteriaSql
