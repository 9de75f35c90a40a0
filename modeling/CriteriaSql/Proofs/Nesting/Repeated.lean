/-
CriteriaSql/Proofs/Nesting/Repeated.lean

Repeated rows add nothing to nested objects.

Rows that come a second time bring no new key, so every level has its groups in
the same order (`keysOf_append_self`), and each group is its rows, once more
behind them.  The values of a row are copied over those of the rows before it;
the second time the last row of a group is the last one again, so that every
member ends with the value that it had, in its old place
(`Members.insertAll_append_self`).  By recursion on the schema the same holds of
the children of every group.

Main result: nesting rows twice is nesting them once, errors included
(`Schema.decompose_append_self`).
-/
import CriteriaSql.Proofs.Nesting.Grouping

namespace CriteriaSql

/-! ### Items that are repeated -/

/-- An item is found where it is first. -/
theorem findIdx?_append_self {α : Type} (p : α → Bool) (items : List α) :
    (items ++ items).findIdx? p = items.findIdx? p := by
  rw [List.findIdx?_append]
  rcases items.findIdx? p with - | i <;> rfl

/-- Items that are repeated have no new keys. -/
theorem keysOf_append_self {α : Type} (key : α → Option String) (items : List α) :
    keysOf key (items ++ items) = keysOf key items := by
  have hnone : (items.filterMap key).removeAll (items.filterMap key) = [] := by
    simp [List.removeAll]
  rw [keysOf, keysOf, List.filterMap_append, List.eraseDups_append, hnone]
  exact List.append_nil _

namespace Schema

/-! ### Groups -/

mutual

/-- The groups of rows do not change when the rows are repeated. -/
theorem grouped_append_self : ∀ (s : Schema) (rows : List Row),
    s.grouped (rows ++ rows) = s.grouped rows
  | ⟨pk, columns, array, sort, children⟩, rows => by
    rw [grouped, grouped, keysOf_append_self]
    congr 2
    apply List.map_congr_left
    intro k _
    rw [under_append, List.flatMap_append, Members.insertAll_append_self,
      withChildren_append_self children]

theorem withChildren_append_self : ∀ (children : List (String × Schema)) (rows : List Row)
    (fields : Members),
    withChildren children (rows ++ rows) fields = withChildren children rows fields
  | [], _, _ => by rw [withChildren, withChildren]
  | (name, child) :: children, rows, fields => by
    rw [withChildren, withChildren, grouped_append_self child]
    exact withChildren_append_self children rows _

end

/-! ### Nesting -/

/-- Nesting rows twice is nesting them once: the same objects with the same
members in the same order at every level, or an error with the same row. -/
theorem decompose_append_self (s : Schema) (rows : List Row) :
    decompose s (rows ++ rows) = decompose s rows := by
  rw [decompose_eq, decompose_eq, findIdx?_append_self, grouped_append_self]

end Schema

end CriteriaSql
