/-
CriteriaSql/Nesting/SortOrder.lean

The order of the objects in a sorted list: by the value of one field.  A value
that is missing or null comes first, then booleans, numbers, texts, and last
lists and objects, which are all alike.
-/
import CriteriaSql.Json.Basic

namespace CriteriaSql.SortOrder

/-- The place of a value among the kinds of values. -/
def rank : Option Json → Nat
  | none | some .null => 0
  | some (.bool _) => 1
  | some (.num _) => 2
  | some (.str _) => 3
  | some (.arr _) | some (.obj _) => 4

/-- The order of two values of a field. -/
def compareValues : Option Json → Option Json → Ordering
  | some (.bool a), some (.bool b) => compare a b
  | some (.num a), some (.num b) => a.toDouble.order b.toDouble
  | some (.str a), some (.str b) => compare a b
  | a, b => compare (rank a) (rank b)

/-- The value of a field of an object. -/
def fieldOf (field : String) : Json → Option Json
  | .obj members => Members.get? members field
  | _ => none

/-- Whether one object may stand before another. -/
def mayPrecede (field : String) (a b : Json) : Bool :=
  (compareValues (fieldOf field a) (fieldOf field b)).isLE

/-- The objects sorted by a field; those with like values stay in order. -/
def sortedBy (field : String) (objects : List Json) : List Json :=
  objects.mergeSort (mayPrecede field)

end CriteriaSql.SortOrder
