/-
CriteriaSql/Proofs/Nesting/Sorted.lean

The lists of nested objects that are sorted.

A level of a schema has a list at the root or in every group of its parent
(`Schema.Level`), and an object holds the lists of its children under their
names (`Schema.get?_withChildren`).

Main result: at every level of nested objects, a list that has a field to be
sorted by is the list of the objects as they are first seen, stably sorted by
that field (`Schema.decompose_sorted`).
-/
import CriteriaSql.Proofs.Nesting.Grouping

namespace CriteriaSql

namespace Schema

open SortOrder (InOrder StablySorted fieldOf)

/-! ### Levels -/

/-- The lists that are made of rows: a level of the schema with the rows that
its list is made of.  The list of the root is made of all rows, and for every
group of a level each of its children has a list that is made of that group. -/
inductive Level (s : Schema) (rows : List Row) : Schema → List Row → Prop
  | root : Level s rows s rows
  | child {node : Schema} {own : List Row} {key name : String} {child : Schema}
    (parent : Level s rows node own) (hkey : key ∈ keysOf (rowKey node.pk) own)
    (hchild : (name, child) ∈ node.children) :
    Level s rows child (under (rowKey node.pk) key own)

/-- What an object holds of a child: its list, or the first object alone, if
there is any. -/
def held (child : Schema) (rows : List Row) : Option Json :=
  if child.array then some (.arr (child.grouped rows)) else (child.grouped rows).head?

theorem withChildren_cons_held (name : String) (child : Schema) (children : List (String × Schema))
    (rows : List Row) (fields : Members) :
    withChildren ((name, child) :: children) rows fields
      = withChildren children rows
        (match child.held rows with
        | none => fields
        | some value => fields.insert name value) := by
  rw [withChildren, held]
  by_cases h : child.array <;> simp only [h, if_true]
  rfl

/-- Children set the members with their own names alone. -/
theorem get?_withChildren_of_notMem {name : String} {children : List (String × Schema)}
    (h : name ∉ children.map Prod.fst) (rows : List Row) (fields : Members) :
    (withChildren children rows fields).get? name = fields.get? name := by
  induction children generalizing fields with
  | nil => rw [withChildren]
  | cons c children ih =>
    obtain ⟨other, child⟩ := c
    obtain ⟨hother, h⟩ := not_or.mp (List.mem_cons.not.mp h)
    rw [withChildren_cons_held, ih h]
    split
    · rfl
    · exact Members.get?_insert_of_ne _ _ hother

/-- The last child of a name sets the member of that name. -/
theorem get?_withChildren {before after : List (String × Schema)} {name : String}
    {child : Schema} (hlast : name ∉ after.map Prod.fst) {rows : List Row} {value : Json}
    (hheld : child.held rows = some value) (fields : Members) :
    (withChildren (before ++ (name, child) :: after) rows fields).get? name = some value := by
  induction before generalizing fields with
  | nil =>
    rw [List.nil_append, withChildren_cons_held, get?_withChildren_of_notMem hlast, hheld]
    exact Members.get?_insert_self _ _ _
  | cons c before ih =>
    obtain ⟨other, child'⟩ := c
    rw [List.cons_append, withChildren_cons_held, ih]

/-- Every group of a level is an object of its list, and the object holds what
the group gives for the children; of children with one name the last one
counts. -/
def HoldsChildren (node : Schema) (own : List Row) : Prop :=
  ∀ key ∈ keysOf (rowKey node.pk) own,
    node.objectOf (under (rowKey node.pk) key own) ∈ node.grouped own
      ∧ ∀ before name child after value,
        node.children = before ++ (name, child) :: after → name ∉ after.map Prod.fst →
          child.held (under (rowKey node.pk) key own) = some value →
          fieldOf name (node.objectOf (under (rowKey node.pk) key own)) = some value

theorem holdsChildren (node : Schema) (own : List Row) : HoldsChildren node own := by
  intro key hkey
  constructor
  · rw [grouped_eq, (arrange_perm _ _).mem_iff]
    exact List.mem_map_of_mem hkey
  · intro before name child after value hchildren hlast hheld
    rw [objectOf, hchildren]
    exact get?_withChildren hlast hheld _

/-- Nested objects are sorted at every level: the list of a level has its
objects as they are first seen, in this order when there is no field to sort
by, and stably sorted by the field when there is one. -/
theorem decompose_sorted {s : Schema} {rows : List Row} {objects : List Json}
    (h : decompose s rows = .ok objects) :
    objects = s.grouped rows
      ∧ ∀ node own, Level s rows node own →
        HoldsChildren node own
        ∧ (node.sort = none → node.grouped own = node.firstSeen own)
        ∧ ∀ field, node.sort = some field →
          StablySorted field (node.firstSeen own) (node.grouped own) := by
  rw [decompose_eq] at h
  split at h
  · cases h
  · refine ⟨(Except.ok.inj h).symm, fun node own _ => ⟨holdsChildren node own, ?_, ?_⟩⟩
    · intro hsort
      rw [grouped_eq, hsort]
      rfl
    · intro field hsort
      rw [grouped_eq, hsort]
      exact SortOrder.stablySorted_sortedBy field _

/-- The lines of an order, by their positions. -/
def lines : Schema :=
  (((Schema.keyed ["line"]).withColumns
    [("line", "id"), ("position", "position")]).asArray).sortedBy "position"

/-- Orders with their lines. -/
def orderLines : Schema :=
  ((Schema.keyed ["id"]).withColumns [("id", "id")]).withChild "lines" lines

/-- An order with three lines. -/
def lineRows : List Row :=
  [[("id", .ofInt 1), ("line", .str "a"), ("position", .ofInt 2)],
    [("id", .ofInt 1), ("line", .str "b"), ("position", .ofInt 1)],
    [("id", .ofInt 1), ("line", .str "c"), ("position", .null)]]

/-- The lines of the order come in the order of their positions. -/
theorem decompose_sorted_lines :
    decompose orderLines lineRows = .ok (orderLines.grouped lineRows)
      ∧ fieldOf "lines" (orderLines.objectOf lineRows) = some (.arr (lines.grouped lineRows))
      ∧ (lines.grouped lineRows).Pairwise (InOrder "position") := by
  have hrows : decompose orderLines lineRows = .ok (orderLines.grouped lineRows) :=
    (decompose_eq orderLines lineRows).trans rfl
  have hkey : "1" ∈ keysOf (rowKey orderLines.pk) lineRows := by decide
  have hgroup : under (rowKey orderLines.pk) "1" lineRows = lineRows := rfl
  have hlevel : Level orderLines lineRows lines lineRows :=
    hgroup ▸ Level.child .root hkey (List.mem_singleton_self _)
  have hfirst : lines.firstSeen lineRows =
      [.obj [("id", .str "a"), ("position", .ofInt 2)],
        .obj [("id", .str "b"), ("position", .ofInt 1)],
        .obj [("id", .str "c"), ("position", .null)]] := rfl
  obtain ⟨-, hlevels⟩ := decompose_sorted hrows
  refine ⟨hrows, ((hlevels _ _ .root).1 "1" hkey).2 [] "lines" lines [] _ rfl (by simp) rfl, ?_⟩
  refine ((hlevels _ _ hlevel).2.2 "position" rfl).inOrder_of_natAbs_le ?_
  rw [hfirst]
  simp [fieldOf, Members.get?, Json.ofInt, pow2]

/-- Objects with an integer key, sorted by it. -/
def byId : Schema :=
  ((Schema.keyed ["id"]).withColumns [("id", "id")]).sortedBy "id"

/-- Two integers with the same nearest double, the greater one first. -/
def closeRows : List Row :=
  [[("id", .ofInt 9007199254740993)], [("id", .ofInt 9007199254740992)]]

/-- The greater one of two integers that have the same nearest double can come
first in a sorted list. -/
theorem not_forall_decompose_inOrder :
    ¬∀ s rows objects field, decompose s rows = .ok objects → s.sort = some field →
      objects.Pairwise (InOrder field) := by
  intro h
  have hrows : decompose byId closeRows = .ok (byId.grouped closeRows) :=
    (decompose_eq byId closeRows).trans rfl
  have hsorted := h byId closeRows _ "id" hrows rfl
  have hfirst : byId.firstSeen closeRows =
      [.obj [("id", .ofInt 9007199254740993)], .obj [("id", .ofInt 9007199254740992)]] := rfl
  have hconfused : SortOrder.Confused (some (.ofInt 9007199254740993))
      (some (.ofInt 9007199254740992)) := ⟨by decide, by decide +kernel⟩
  rw [grouped_eq, hfirst] at hsorted
  exact SortOrder.pairwise_inOrder_sortedBy_iff.mp hsorted _ _ (List.Sublist.refl _) hconfused

end Schema

end CriteriaSql
