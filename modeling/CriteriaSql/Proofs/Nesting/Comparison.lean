/-
CriteriaSql/Proofs/Nesting/Comparison.lean

The comparison behind a sorted list is a total preorder.

Two values are compared within their kind when they are of one kind that has an
order of its own, and by their kinds otherwise.  Turning the two round takes the
same branch (`compareValues_swap`), and a chain of comparisons goes through the
places of the values in one linear order (`sortKey`), whatever kinds it mixes
and however integers are rounded.

Main result: the comparison is antisymmetric, reflexive and transitive, and
sorting by it is stable (`compareValues_preorder`).
-/
import CriteriaSql.Proofs.Nesting.Sorted

namespace CriteriaSql

namespace SortOrder

/-! ### Laws of the comparison -/

instance : Std.TransCmp compareValues where
  eq_swap := compareValues_swap _ _
  isLE_trans hab hbc := by
    rw [compareValues_isLE_iff] at hab hbc ⊢
    exact hab.trans hbc

theorem compareValues_ne_gt_iff {a b : Option Json} :
    compareValues a b ≠ .gt ↔ sortKey a ≤ sortKey b := by
  rw [← compareValues_isLE_iff]
  exact Ordering.ne_gt_iff_isLE

/-- The comparison of two values of a field is the reverse of that of the other
way round, a value is equal to itself, and what is not greater than a value that
is not greater than a third one is not greater than this.  So a list that is
sorted by it is in order, and what is equal to an object comes in the order of
the list; at a level of nested objects that is the order in which they are first
seen. -/
theorem compareValues_preorder :
    (∀ a b, compareValues a b = (compareValues b a).swap)
      ∧ (∀ a, compareValues a a = .eq)
      ∧ (∀ a b c, compareValues a b ≠ .gt → compareValues b c ≠ .gt → compareValues a c ≠ .gt)
      ∧ (∀ field objects, (sortedBy field objects).Perm objects
        ∧ (sortedBy field objects).Pairwise (fun x y =>
          compareValues (fieldOf field x) (fieldOf field y) ≠ .gt)
        ∧ ∀ x, (sortedBy field objects).filter (alike field x) = objects.filter (alike field x))
      ∧ ∀ (s : Schema) rows field, s.sort = some field →
        s.grouped rows = sortedBy field (s.firstSeen rows) := by
  refine ⟨compareValues_swap, fun a => Std.ReflCmp.compare_self, ?_, ?_, ?_⟩
  · intro a b c hab hbc
    rw [compareValues_ne_gt_iff] at hab hbc ⊢
    exact hab.trans hbc
  · intro field objects
    exact ⟨List.mergeSort_perm objects _, pairwise_sortedBy field objects,
      filter_alike_sortedBy field objects⟩
  · intro s rows field hsort
    rw [Schema.grouped_eq, hsort]
    rfl

/-- An integer beyond the doubles that hold integers one by one, the integer
below it, which has the same double, and a text. -/
theorem compareValues_preorder_close :
    compareValues (some (.ofInt 9007199254740993)) (some (.ofInt 9007199254740992)) ≠ .gt
      ∧ compareValues (some (.ofInt 9007199254740992)) (some (.str "")) ≠ .gt
      ∧ compareValues (some (.ofInt 9007199254740993)) (some (.str "")) ≠ .gt
      ∧ Schema.byId.sort = some "id"
      ∧ Schema.byId.grouped Schema.closeRows
        = sortedBy "id" (Schema.byId.firstSeen Schema.closeRows) := by
  have hclose : compareValues (some (.ofInt 9007199254740993))
      (some (.ofInt 9007199254740992)) ≠ .gt := by decide +kernel
  have htext : compareValues (some (.ofInt 9007199254740992)) (some (.str "")) ≠ .gt := by decide
  obtain ⟨-, -, htrans, -, hlevel⟩ := compareValues_preorder
  exact ⟨hclose, htext, htrans _ _ _ hclose htext, rfl, hlevel _ _ _ rfl⟩

end SortOrder

end CriteriaSql
