/-
CriteriaSql/Proofs/Nesting/LeftJoin.lean

Objects spread over flat rows as a left join spreads them.

An object gives the values of its own columns, combined with every combination
of the rows of its children; a child without objects gives one row of nulls
(`Schema.expand`).  Beside the rows stand the objects as JSON
(`Schema.objects`), the schemas whose levels a left join keeps apart
(`Schema.Joinable`) and the objects that have keys of their own
(`Schema.Fits`).

Every row names all columns of the levels (`Schema.names_of_mem_expand`).
-/
import CriteriaSql.Nesting.Decompose
import CriteriaSql.Proofs.Json.Members
import CriteriaSql.Proofs.Json.ScalarText
import CriteriaSql.Proofs.Nesting.FirstSeen
import Mathlib.Data.List.Nodup

namespace CriteriaSql

/-- An object at a level: the values of its columns, and for each child of the
level the objects under it. -/
inductive Instance where
  | mk (values : Row) (children : List (List Instance))

namespace Instance

def values : Instance → Row
  | ⟨values, _⟩ => values

def children : Instance → List (List Instance)
  | ⟨_, children⟩ => children

end Instance

namespace Schema

/-! ### Levels and their columns -/

/-- The columns that a level reads, each once. -/
def rowColumns (s : Schema) : List String :=
  (s.pk ++ s.columns.map Prod.fst).eraseDups

mutual

/-- A level and those below it. -/
def nodes : Schema → List Schema
  | ⟨pk, columns, array, sort, children⟩ =>
    ⟨pk, columns, array, sort, children⟩ :: nodesOf children

/-- The levels of children. -/
def nodesOf : List (String × Schema) → List Schema
  | [] => []
  | (_, child) :: children => nodes child ++ nodesOf children

end

/-- The columns that levels read. -/
def allColumns (nodes : List Schema) : List String :=
  nodes.flatMap rowColumns

/-- Levels that a left join can spread: none is sorted, each gives different
names to its columns and its children, and no two read the same column. -/
structure Joinable (nodes : List Schema) : Prop where
  unsorted : ∀ n ∈ nodes, n.sort = none
  named : ∀ n ∈ nodes, (n.columns.map Prod.snd ++ n.children.map Prod.fst).Nodup
  apart : nodes.Pairwise fun n m => ∀ column ∈ n.rowColumns, column ∉ m.rowColumns

/-! ### Objects over rows -/

/-- The values of an object in the columns of its level. -/
def ownRow (s : Schema) (i : Instance) : Row :=
  s.rowColumns.map fun column => (column, i.values.getD column)

/-- The rows of a child in an outer join: one of nulls when there are none. -/
def outer (columns : List String) : List Row → List Row
  | [] => [columns.map fun column => (column, .null)]
  | row :: rows => row :: rows

mutual

/-- The rows of a left join of objects with their children: for each object its
own values with every combination of rows of its children. -/
def expand : Schema → List Instance → List Row
  | ⟨pk, columns, array, sort, children⟩, forest =>
    forest.flatMap fun i => (expandChildren children i.children).map
      (ownRow ⟨pk, columns, array, sort, children⟩ i ++ ·)

/-- The combinations of rows of the children of one object; the first child
varies slowest. -/
def expandChildren : List (String × Schema) → List (List Instance) → List Row
  | [], _ => [[]]
  | (_, child) :: children, forests =>
    (outer (allColumns child.nodes) (expand child (forests.headD []))).flatMap fun row =>
      (expandChildren children forests.tail).map (row ++ ·)

end

/-! ### Objects as JSON -/

/-- The values of an object for the mapped columns, under their new names. -/
def ownMembers (columns : List (String × String)) (i : Instance) : Members :=
  columns.map fun c => (c.2, i.values.getD c.1)

/-- The member for the objects of a child: a list of them, or the first one, if
there is any. -/
def childMember (name : String) (array : Bool) (objects : List Json) : Members :=
  if array then [(name, .arr objects)] else objects.head?.toList.map fun object => (name, object)

mutual

/-- The objects of a level: each with its own members, and then its children. -/
def objects : Schema → List Instance → List Json
  | ⟨_, columns, _, _, children⟩, forest =>
    forest.map fun i => .obj (ownMembers columns i ++ childMembers children i.children)

/-- The members for the children of one object. -/
def childMembers : List (String × Schema) → List (List Instance) → Members
  | [], _ => []
  | (name, child) :: children, forests =>
    childMember name child.array (objects child (forests.headD []))
      ++ childMembers children forests.tail

end

/-! ### Objects that fit a schema -/

/-- The values of an object in the key columns. -/
def keyValues (pk : List String) (i : Instance) : List Json :=
  pk.map i.values.getD

mutual

/-- Siblings at a level: their keys are different lists of scalars that are not
all null, and the same is true of their children. -/
def Fits : Schema → List Instance → Prop
  | ⟨pk, _, _, _, children⟩, forest =>
    (forest.map (keyValues pk)).Nodup ∧
      ∀ i ∈ forest, (∀ v ∈ keyValues pk i, v.IsScalar) ∧ (∃ v ∈ keyValues pk i, v ≠ .null) ∧
        FitChildren children i.children

/-- The objects under one object: siblings for each child, and at most one
where the child is no list. -/
def FitChildren : List (String × Schema) → List (List Instance) → Prop
  | [], [] => True
  | (_, child) :: children, forest :: forests =>
    Fits child forest ∧ (child.array = false → forest.length ≤ 1) ∧ FitChildren children forests
  | _, _ => False

end

/-! ### Columns of levels -/

theorem mem_rowColumns {s : Schema} {column : String} :
    column ∈ s.rowColumns ↔ column ∈ s.pk ∨ column ∈ s.columns.map Prod.fst := by
  rw [rowColumns, List.mem_eraseDups, List.mem_append]

theorem nodes_eq (s : Schema) : s.nodes = s :: nodesOf s.children := by
  obtain ⟨pk, columns, array, sort, children⟩ := s
  rw [nodes]

theorem self_mem_nodes (s : Schema) : s ∈ s.nodes :=
  nodes_eq s ▸ List.mem_cons_self

theorem allColumns_nodes (s : Schema) :
    allColumns s.nodes = s.rowColumns ++ allColumns (nodesOf s.children) := by
  rw [nodes_eq, allColumns, List.flatMap_cons, ← allColumns]

theorem allColumns_append (nodes nodes' : List Schema) :
    allColumns (nodes ++ nodes') = allColumns nodes ++ allColumns nodes' :=
  List.flatMap_append

/-- Levels are joinable apart from each other, and read different columns. -/
theorem Joinable.append {nodes nodes' : List Schema} (h : Joinable (nodes ++ nodes')) :
    Joinable nodes ∧ Joinable nodes' ∧ ∀ column ∈ allColumns nodes, column ∉ allColumns nodes' := by
  obtain ⟨hapart, hapart', hcross⟩ := List.pairwise_append.mp h.apart
  refine ⟨⟨fun n hn => h.unsorted n (List.mem_append_left _ hn),
      fun n hn => h.named n (List.mem_append_left _ hn), hapart⟩,
    ⟨fun n hn => h.unsorted n (List.mem_append_right _ hn),
      fun n hn => h.named n (List.mem_append_right _ hn), hapart'⟩, ?_⟩
  intro column hcolumn hcolumn'
  obtain ⟨n, hn, hread⟩ := List.mem_flatMap.mp hcolumn
  obtain ⟨m, hm, hread'⟩ := List.mem_flatMap.mp hcolumn'
  exact hcross n hn m hm column hread hread'

/-- The columns of a level are not those of its children. -/
theorem Joinable.children {s : Schema} (h : Joinable s.nodes) :
    Joinable (nodesOf s.children)
      ∧ ∀ column ∈ s.rowColumns, column ∉ allColumns (nodesOf s.children) := by
  rw [nodes_eq, ← List.singleton_append] at h
  obtain ⟨-, hchildren, hcross⟩ := h.append
  refine ⟨hchildren, fun column hcolumn => hcross column ?_⟩
  rwa [allColumns, List.flatMap_singleton]

/-! ### Columns of rows -/

theorem names_ownRow (s : Schema) (i : Instance) : (ownRow s i).names = s.rowColumns := by
  simp [ownRow, Members.names, Function.comp_def]

/-- The rows of one object. -/
def rowsOf (s : Schema) (i : Instance) : List Row :=
  (expandChildren s.children i.children).map (ownRow s i ++ ·)

theorem expand_eq (s : Schema) (forest : List Instance) :
    s.expand forest = forest.flatMap s.rowsOf := by
  obtain ⟨pk, columns, array, sort, children⟩ := s
  rw [expand]
  rfl

theorem names_of_mem_outer {columns : List String} {rows : List Row}
    (h : ∀ row ∈ rows, row.names = columns) {row : Row} (hrow : row ∈ outer columns rows) :
    row.names = columns := by
  rcases rows with - | ⟨row', rows⟩
  · rw [List.mem_singleton.mp hrow]
    simp [Members.names, Function.comp_def]
  · exact h row hrow

mutual

theorem names_of_mem_expand : ∀ (s : Schema) {forest : List Instance} {row : Row},
    row ∈ s.expand forest → row.names = allColumns s.nodes
  | ⟨pk, columns, array, sort, children⟩, forest, row, hrow => by
    rw [expand] at hrow
    obtain ⟨i, -, hrow⟩ := List.mem_flatMap.mp hrow
    obtain ⟨rest, hrest, rfl⟩ := List.mem_map.mp hrow
    rw [Members.names_append, names_ownRow, names_of_mem_expandChildren children hrest,
      allColumns_nodes]

theorem names_of_mem_expandChildren : ∀ (children : List (String × Schema))
    {forests : List (List Instance)} {row : Row},
    row ∈ expandChildren children forests → row.names = allColumns (nodesOf children)
  | [], forests, row, hrow => by
    rw [expandChildren, List.mem_singleton] at hrow
    rw [hrow, nodesOf]
    rfl
  | (name, child) :: children, forests, row, hrow => by
    rw [expandChildren] at hrow
    obtain ⟨first, hfirst, hrow⟩ := List.mem_flatMap.mp hrow
    obtain ⟨rest, hrest, rfl⟩ := List.mem_map.mp hrow
    have hnames := names_of_mem_outer (fun row hrow => names_of_mem_expand child hrow) hfirst
    rw [Members.names_append, hnames, names_of_mem_expandChildren children hrest, nodesOf,
      allColumns_append]

end

theorem outer_ne_nil (columns : List String) (rows : List Row) : outer columns rows ≠ [] := by
  rcases rows with - | ⟨row, rows⟩ <;> exact List.cons_ne_nil _ _

/-- There is always a combination of rows of the children. -/
theorem expandChildren_ne_nil (children : List (String × Schema))
    (forests : List (List Instance)) : expandChildren children forests ≠ [] := by
  induction children generalizing forests with
  | nil =>
    rw [expandChildren]
    exact List.cons_ne_nil _ _
  | cons child children ih =>
    rw [expandChildren]
    obtain ⟨row, rows, h⟩ := List.exists_cons_of_ne_nil
      (outer_ne_nil (allColumns child.2.nodes) (child.2.expand (forests.headD [])))
    rw [h, List.flatMap_cons]
    simp [ih]

theorem rowsOf_ne_nil (s : Schema) (i : Instance) : s.rowsOf i ≠ [] := by
  rw [rowsOf, ne_eq, List.map_eq_nil_iff]
  exact expandChildren_ne_nil s.children i.children

/-- The rows of an object have its values in the columns of its level. -/
theorem get?_of_mem_rowsOf {s : Schema} {i : Instance} {row : Row} (hrow : row ∈ s.rowsOf i)
    {column : String} (hcolumn : column ∈ s.rowColumns) :
    row.get? column = some (i.values.getD column) := by
  obtain ⟨rest, -, rfl⟩ := List.mem_map.mp hrow
  rw [Members.get?_append, ownRow, Members.get?_map_mk, if_pos hcolumn]
  rfl

end Schema

end CriteriaSql
