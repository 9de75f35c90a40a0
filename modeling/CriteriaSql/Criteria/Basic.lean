/-
CriteriaSql/Criteria/Basic.lean

Criteria: a conjunction of predicates and groups, in the order of the members
of the JSON object they are read from.  The member `or` is a disjunction of
criteria and the member `and` a conjunction; every other member is a predicate.
-/
import CriteriaSql.Error

namespace CriteriaSql

/-- How the branches of a group are joined. -/
inductive Connective where
  | any
  | all
deriving DecidableEq, Repr

/-- The member name of a connective. -/
def Connective.name : Connective → String
  | .any => "or"
  | .all => "and"

/-- The connective that a member name stands for. -/
def Connective.ofName? (name : String) : Option Connective :=
  if name = "or" then some .any else if name = "and" then some .all else none

/-- One entry of criteria. -/
inductive Criterion where
  | predicate (key : String) (value : Json)
  | group (connective : Connective) (branches : List (List Criterion))
deriving Repr

/-- A conjunction of entries. -/
abbrev Criteria := List Criterion

namespace Criteria

/-! ### From JSON -/

mutual

/-- The entries that the members of an object stand for. -/
def ofMembers : List (String × Json) → Except CriteriaFault Criteria
  | [] => .ok []
  | (key, value) :: members =>
    match Connective.ofName? key with
    | some connective => do
      let branches ← branchesOf connective value
      let entries ← ofMembers members
      return .group connective branches :: entries
    | none => do
      let entries ← ofMembers members
      return .predicate key value :: entries

/-- The branches of a group: a list of objects, or a single object. -/
def branchesOf (connective : Connective) : Json → Except CriteriaFault (List Criteria)
  | .arr items => branchItems connective items
  | .obj members => do
    let entries ← ofMembers members
    return [entries]
  | got => .error (.notGroup connective.name got)

/-- The branches that are left of a list. -/
def branchItems (connective : Connective) : List Json → Except CriteriaFault (List Criteria)
  | [] => .ok []
  | .obj members :: items => do
    let entries ← ofMembers members
    let branches ← branchItems connective items
    return entries :: branches
  | got :: _ => .error (.notBranch connective.name got)

end

/-- The criteria of a JSON value: an object, or null or `"*"` for no entries. -/
def ofJson : Json → Except CriteriaFault Criteria
  | .null => .ok []
  | .obj members => ofMembers members
  | .str s => if s = "*" then .ok [] else .error (.notCriteria (.str s))
  | got => .error (.notCriteria got)

/-! ### To JSON -/

mutual

/-- The member name and value of an entry. -/
def memberOf : Criterion → String × Json
  | .predicate key value => (key, value)
  | .group connective branches => (connective.name, .arr (branchValues branches))

/-- The members of criteria, put after the members `before`. -/
def membersAfter (before : Members) : List Criterion → Members
  | [] => before
  | entry :: entries =>
    let m := memberOf entry
    membersAfter (before.insert m.1 m.2) entries

/-- The objects of branches. -/
def branchValues : List (List Criterion) → List Json
  | [] => []
  | branch :: branches => .obj (membersAfter [] branch) :: branchValues branches

end

/-- The object of criteria; every group is a list. -/
def toJson (criteria : Criteria) : Json :=
  .obj (membersAfter [] criteria)

end Criteria

end CriteriaSql
