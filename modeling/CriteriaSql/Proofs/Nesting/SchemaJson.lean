/-
CriteriaSql/Proofs/Nesting/SchemaJson.lean

Schemas read from JSON and written as JSON.

The values that describe a schema are given by a grammar (`Json.IsSchema`):
an object whose members `pk`, `columns`, `array` and `sort` have the right
shapes and whose other members describe schemas in turn.  The readers of those
four members are inverted one by one (`strings_eq_ok_iff`, `pkOf_eq_ok_iff`,
`renamings_eq_ok_iff`, `columnsOf_eq_ok_iff`), and a whole level through them
(`ofJson_obj_eq_ok_iff`).

Beside the reader stands the JSON form of a schema (`toJson`), an object into
which members are inserted one after the other.  Where no member replaces
another one and every level has key columns (`Presentable`), it is read as the
schema again.

Main result: `ofJson_accepts_and_restores`.
-/
import CriteriaSql.Proofs.Json.Members
import CriteriaSql.Proofs.Nesting.LeftJoin
import CriteriaSql.Proofs.Outcome

namespace CriteriaSql

/-! ### Values that describe a schema -/

/-- The names of the members that belong to a level itself. -/
def Schema.reserved : List String :=
  ["pk", "columns", "array", "sort"]

namespace Json

/-- Key columns: a name, or a list of names that is not empty. -/
inductive IsPk : Json → Prop
  | name (column : String) : IsPk (.str column)
  | names {columns : List String} (h : columns ≠ []) : IsPk (ofStrings columns)

/-- An object of texts. -/
def ofRenamings (columns : List (String × String)) : Json :=
  .obj (columns.map fun c => (c.1, .str c.2))

/-- Copied columns: null, a list of names, or a map from names to names. -/
inductive IsColumns : Json → Prop
  | null : IsColumns .null
  | names (columns : List String) : IsColumns (ofStrings columns)
  | renamed (columns : List (String × String)) : IsColumns (ofRenamings columns)

/-- A description of a schema: an object with key columns, in which the other
members of a level have the right shape where they are present, and every
further member describes a schema. -/
inductive IsSchema : Json → Prop
  | obj {members : Members}
      (pk : ∃ v, members.get? "pk" = some v ∧ v.IsPk)
      (columns : ∀ v, members.get? "columns" = some v → v.IsColumns)
      (array : ∀ v, members.get? "array" = some v → ∃ b, v = .bool b)
      (sort : ∀ v, members.get? "sort" = some v → v = .null ∨ ∃ field, v = .str field)
      (children : ∀ m ∈ members, m.1 ∉ Schema.reserved → IsSchema m.2) :
      IsSchema (.obj members)

end Json

namespace Schema

open Json (ofStrings ofRenamings)

variable {members : Members} {v : Json} {s : Schema}

theorem isOwn_iff {name : String} : isOwn name = true ↔ name ∈ reserved := by
  simp [isOwn, reserved, or_assoc]

/-! ### The members of a level, read -/

/-- A text, or the fault of a value that is none. -/
def readText (fault : Json → SchemaFault) : Json → Except SchemaFault String
  | .str s => .ok s
  | got => .error (fault got)

theorem readText_eq_ok_iff {fault : Json → SchemaFault} {text : String} :
    readText fault v = .ok text ↔ v = .str text := by
  cases v <;> simp [readText]

theorem strings_eq_mapM (fault : Json → SchemaFault) (items : List Json) :
    strings fault items = items.mapM (readText fault) := by
  induction items with
  | nil => rfl
  | cons v items ih =>
    rw [List.mapM_cons, ← ih]
    cases v <;> rfl

theorem strings_eq_ok_iff {fault : Json → SchemaFault} {items : List Json} {ss : List String} :
    strings fault items = .ok ss ↔ .arr items = ofStrings ss := by
  rw [strings_eq_mapM, mapM_eq_ok_iff_eq_map fun _ _ => readText_eq_ok_iff, ofStrings,
    Json.arr.injEq]

/-- A column with its new name is read from its member. -/
def readRenaming (m : String × Json) : Except SchemaFault (String × String) :=
  (readText (.columnTarget m.1) m.2).map fun name => (m.1, name)

theorem readRenaming_eq_ok_iff {m : String × Json} {c : String × String} :
    readRenaming m = .ok c ↔ m = (c.1, .str c.2) := by
  obtain ⟨column, v⟩ := m
  obtain ⟨column', name⟩ := c
  rw [readRenaming, map_eq_ok_iff]
  simp [readText_eq_ok_iff, and_comm]

theorem renamings_eq_mapM (members : Members) : renamings members = members.mapM readRenaming := by
  induction members with
  | nil => rfl
  | cons m members ih =>
    obtain ⟨column, v⟩ := m
    rw [List.mapM_cons, ← ih]
    cases v <;> rfl

theorem renamings_eq_ok_iff {columns : List (String × String)} :
    renamings members = .ok columns ↔ .obj members = ofRenamings columns := by
  rw [renamings_eq_mapM, mapM_eq_ok_iff_eq_map fun _ _ => readRenaming_eq_ok_iff, ofRenamings,
    Json.obj.injEq]

theorem pkOf_eq_ok_iff {pk : List String} :
    pkOf v = .ok pk ↔ (∃ column, v = .str column ∧ pk = [column]) ∨ v = ofStrings pk ∧ pk ≠ [] := by
  rcases v with - | - | - | column | (- | ⟨v, items⟩) | members
  case str =>
    rw [pkOf, Except.ok.injEq, eq_comm]
    simp [ofStrings]
  case arr.nil =>
    simp [pkOf, ofStrings]
  case arr.cons =>
    show strings .pkItem (v :: items) = .ok pk ↔ _
    rw [strings_eq_ok_iff]
    constructor
    · intro h
      refine Or.inr ⟨h, ?_⟩
      rintro rfl
      cases h
    · rintro (⟨column, h, -⟩ | ⟨h, -⟩)
      · cases h
      · exact h
  all_goals simp [pkOf, ofStrings]

theorem columnsOf_eq_ok_iff {columns : List (String × String)} :
    columnsOf v = .ok columns ↔
      (v = .null ∧ columns = [])
        ∨ (∃ names, v = ofStrings names ∧ columns = names.map fun name => (name, name))
        ∨ v = ofRenamings columns := by
  cases v with
  | null =>
    rw [columnsOf, Except.ok.injEq, eq_comm]
    simp [ofStrings, ofRenamings]
  | arr items =>
    rw [columnsOf, bind_eq_ok_iff]
    constructor
    · rintro ⟨names, hnames, h⟩
      rw [strings_eq_ok_iff.mp hnames]
      exact Or.inr (Or.inl ⟨names, rfl, (Except.ok.inj h).symm⟩)
    · rintro (⟨h, -⟩ | ⟨names, h, rfl⟩ | h)
      · cases h
      · exact ⟨names, strings_eq_ok_iff.mpr h, rfl⟩
      · cases h
  | obj members =>
    rw [columnsOf, renamings_eq_ok_iff]
    simp [ofStrings]
  | _ => simp [columnsOf, ofStrings, ofRenamings]

/-! ### When the members of a level are accepted -/

theorem exists_requiredPk_iff {o : Option Json} :
    (∃ pk, requiredPk o = .ok pk) ↔ ∃ v, o = some v ∧ v.IsPk := by
  cases o with
  | none => simp [requiredPk]
  | some v =>
    constructor
    · rintro ⟨pk, h⟩
      refine ⟨v, rfl, ?_⟩
      rcases pkOf_eq_ok_iff.mp h with ⟨column, rfl, -⟩ | ⟨rfl, hpk⟩
      · exact .name column
      · exact .names hpk
    · rintro ⟨v', hv, hpk⟩
      obtain rfl := Option.some.inj hv
      rcases hpk with column | hpk
      · exact ⟨_, pkOf_eq_ok_iff.mpr (Or.inl ⟨column, rfl, rfl⟩)⟩
      · exact ⟨_, pkOf_eq_ok_iff.mpr (Or.inr ⟨rfl, hpk⟩)⟩

theorem exists_columnsOf_iff {o : Option Json} :
    (∃ columns, columnsOf (o.getD .null) = .ok columns) ↔ ∀ v, o = some v → v.IsColumns := by
  cases o with
  | none => simp [columnsOf]
  | some v =>
    constructor
    · rintro ⟨columns, h⟩ v' hv
      obtain rfl := Option.some.inj hv
      rcases columnsOf_eq_ok_iff.mp h with ⟨rfl, -⟩ | ⟨names, rfl, -⟩ | rfl
      · exact .null
      · exact .names names
      · exact .renamed columns
    · intro h
      rcases h v rfl with - | names | columns
      · exact ⟨_, columnsOf_eq_ok_iff.mpr (Or.inl ⟨rfl, rfl⟩)⟩
      · exact ⟨_, columnsOf_eq_ok_iff.mpr (Or.inr (Or.inl ⟨names, rfl, rfl⟩))⟩
      · exact ⟨_, columnsOf_eq_ok_iff.mpr (Or.inr (Or.inr rfl))⟩

theorem exists_arrayOf_iff {o : Option Json} :
    (∃ array, arrayOf o = .ok array) ↔ ∀ v, o = some v → ∃ b, v = .bool b := by
  rcases o with - | (- | - | - | - | - | -) <;> simp [arrayOf]

theorem exists_sortOf_iff {o : Option Json} :
    (∃ sort, sortOf o = .ok sort) ↔ ∀ v, o = some v → v = .null ∨ ∃ field, v = .str field := by
  rcases o with - | (- | - | - | - | - | -) <;> simp [sortOf]

/-! ### Levels and children -/

/-- A level is read member by member. -/
theorem ofJson_obj_eq_ok_iff :
    ofJson (.obj members) = .ok s ↔
      arrayOf (members.get? "array") = .ok s.array ∧ sortOf (members.get? "sort") = .ok s.sort
        ∧ requiredPk (members.get? "pk") = .ok s.pk
        ∧ columnsOf ((members.get? "columns").getD .null) = .ok s.columns
        ∧ childrenOf members = .ok s.children := by
  rw [ofJson]
  simp only [bind_eq_ok_iff]
  constructor
  · rintro ⟨array, harray, sort, hsort, pk, hpk, columns, hcolumns, children, hchildren, h⟩
    obtain rfl := Except.ok.inj h
    exact ⟨harray, hsort, hpk, hcolumns, hchildren⟩
  · obtain ⟨pk, columns, array, sort, children⟩ := s
    rintro ⟨harray, hsort, hpk, hcolumns, hchildren⟩
    exact ⟨array, harray, sort, hsort, pk, hpk, columns, hcolumns, children, hchildren, rfl⟩

/-- A child is read from the value of its member. -/
def readChild (m : String × Json) : Except SchemaFault (String × Schema) :=
  ((ofJson m.2).map fun child => (m.1, child)).mapError (.child m.1)

theorem readChild_eq_ok_iff {m : String × Json} {c : String × Schema} :
    readChild m = .ok c ↔ m.1 = c.1 ∧ ofJson m.2 = .ok c.2 := by
  obtain ⟨name, child⟩ := c
  rw [readChild, mapError_eq_ok_iff, map_eq_ok_iff]
  constructor
  · rintro ⟨child', h, hc⟩
    obtain ⟨hname, rfl⟩ := Prod.mk.inj hc
    exact ⟨hname, h⟩
  · rintro ⟨rfl, h⟩
    exact ⟨child, h, rfl⟩

/-- The children are the members that are not the level's own, in order. -/
theorem childrenOf_eq_mapM (members : Members) :
    childrenOf members = (members.filter fun m => !isOwn m.1).mapM readChild := by
  induction members with
  | nil => rw [childrenOf]; rfl
  | cons m members ih =>
    obtain ⟨name, v⟩ := m
    rw [childrenOf, ih]
    by_cases hown : isOwn name = true
    · rw [if_pos hown, List.filter_cons_of_neg (by simpa using hown)]
    · rw [if_neg hown, List.filter_cons_of_pos (by simpa using hown), List.mapM_cons, readChild]
      cases ofJson v <;> rfl

theorem exists_childrenOf_iff :
    (∃ children, childrenOf members = .ok children) ↔
      ∀ m ∈ members, m.1 ∉ reserved → ∃ child, ofJson m.2 = .ok child := by
  rw [childrenOf_eq_mapM, exists_mapM_eq_ok_iff]
  simp [readChild_eq_ok_iff, ← isOwn_iff]

/-- A level is accepted when its members are. -/
theorem exists_ofJson_obj_iff :
    (∃ s, ofJson (.obj members) = .ok s) ↔
      (∃ array, arrayOf (members.get? "array") = .ok array)
        ∧ (∃ sort, sortOf (members.get? "sort") = .ok sort)
        ∧ (∃ pk, requiredPk (members.get? "pk") = .ok pk)
        ∧ (∃ columns, columnsOf ((members.get? "columns").getD .null) = .ok columns)
        ∧ ∃ children, childrenOf members = .ok children := by
  simp only [ofJson_obj_eq_ok_iff]
  constructor
  · rintro ⟨s, harray, hsort, hpk, hcolumns, hchildren⟩
    exact ⟨⟨_, harray⟩, ⟨_, hsort⟩, ⟨_, hpk⟩, ⟨_, hcolumns⟩, _, hchildren⟩
  · rintro ⟨⟨array, harray⟩, ⟨sort, hsort⟩, ⟨pk, hpk⟩, ⟨columns, hcolumns⟩, children, hchildren⟩
    exact ⟨⟨pk, columns, array, sort, children⟩, harray, hsort, hpk, hcolumns, hchildren⟩

/-! ### Accepted values -/

/-- What is read describes a schema: the recursion follows the members, which are
smaller than their object. -/
theorem isSchema_of_ofJson {json : Json} {s : Schema} (h : ofJson json = .ok s) :
    json.IsSchema := by
  match json with
  | .obj members =>
    obtain ⟨harray, hsort, hpk, hcolumns, hchildren⟩ := exists_ofJson_obj_iff.mp ⟨s, h⟩
    refine .obj (exists_requiredPk_iff.mp hpk) (exists_columnsOf_iff.mp hcolumns)
      (exists_arrayOf_iff.mp harray) (exists_sortOf_iff.mp hsort) fun m hm hname => ?_
    obtain ⟨child, hchild⟩ := exists_childrenOf_iff.mp hchildren m hm hname
    exact isSchema_of_ofJson hchild
  | .null | .bool _ | .num _ | .str _ | .arr _ => cases h
termination_by sizeOf json
decreasing_by
  have hlt := List.sizeOf_lt_of_mem hm
  obtain ⟨name, v⟩ := m
  rw [Prod.mk.sizeOf_spec] at hlt
  rw [Json.obj.sizeOf_spec]
  show sizeOf v < _
  omega

theorem exists_ofJson_of_isSchema {json : Json} (h : json.IsSchema) :
    ∃ s, ofJson json = .ok s := by
  induction h with
  | obj hpk hcolumns harray hsort _ ih =>
    exact exists_ofJson_obj_iff.mpr ⟨exists_arrayOf_iff.mpr harray, exists_sortOf_iff.mpr hsort,
      exists_requiredPk_iff.mpr hpk, exists_columnsOf_iff.mpr hcolumns,
      exists_childrenOf_iff.mpr ih⟩

theorem mem_nodesOf {n : Schema} {children : List (String × Schema)} :
    n ∈ nodesOf children ↔ ∃ c ∈ children, n ∈ c.2.nodes := by
  induction children with
  | nil => simp [nodesOf]
  | cons c children ih =>
    obtain ⟨name, child⟩ := c
    rw [nodesOf, List.mem_append, ih, List.exists_mem_cons_iff]

/-- A level that has been read has key columns. -/
theorem pk_ne_nil_of_requiredPk {o : Option Json} {pk : List String}
    (h : requiredPk o = .ok pk) : pk ≠ [] := by
  cases o with
  | none => cases h
  | some v =>
    rcases pkOf_eq_ok_iff.mp h with ⟨column, -, rfl⟩ | ⟨-, hpk⟩
    · exact List.cons_ne_nil column []
    · exact hpk

theorem pk_ne_nil_of_mem_nodes {json : Json} (h : ofJson json = .ok s) {n : Schema}
    (hn : n ∈ s.nodes) : n.pk ≠ [] := by
  -- by the description that has been read, each child of the schema having its member there
  induction isSchema_of_ofJson h generalizing s n with
  | @obj members _ _ _ _ _ ih =>
    obtain ⟨-, -, hpk, -, hchildren⟩ := ofJson_obj_eq_ok_iff.mp h
    rw [nodes_eq, List.mem_cons, mem_nodesOf] at hn
    rcases hn with rfl | ⟨c, hc, hn⟩
    · exact pk_ne_nil_of_requiredPk hpk
    · rw [childrenOf_eq_mapM] at hchildren
      obtain ⟨m, hm, hread⟩ := exists_of_mapM_eq_ok hchildren c hc
      obtain ⟨hmem, hown⟩ := List.mem_filter.mp hm
      have hname : m.1 ∉ reserved := by
        simpa [← isOwn_iff] using hown
      exact ih m hmem hname (readChild_eq_ok_iff.mp hread).2 hn

/-! ### The JSON form of a schema -/

/-- The members of the level itself. -/
def levelMembers (s : Schema) : Members :=
  [("pk", ofStrings s.pk),
    ("columns", .obj (Members.insertAll [] (s.columns.map fun c => (c.1, .str c.2)))),
    ("array", .bool s.array), ("sort", .ofOption .str s.sort)]

mutual

/-- The JSON form of a schema: the members of the level, and then its children
in order, inserted one after the other. -/
def toJson : Schema → Json
  | ⟨pk, columns, array, sort, children⟩ =>
    .obj (Members.insertAll (levelMembers ⟨pk, columns, array, sort, children⟩)
      (childForms children))

/-- The members for children. -/
def childForms : List (String × Schema) → Members
  | [] => []
  | (name, child) :: children => (name, toJson child) :: childForms children

end

/-- A level that an object can hold: it has key columns, and no member of the
object or of the map of columns stands under the name of another one. -/
structure Presentable (s : Schema) : Prop where
  keyed : s.pk ≠ []
  sources : (s.columns.map Prod.fst).Nodup
  apart : (s.children.map Prod.fst).Nodup
  unreserved : ∀ c ∈ s.children, c.1 ∉ reserved

instance : DecidablePred Presentable := fun s =>
  decidable_of_iff
    (s.pk ≠ [] ∧ (s.columns.map Prod.fst).Nodup ∧ (s.children.map Prod.fst).Nodup
      ∧ ∀ c ∈ s.children, c.1 ∉ reserved)
    ⟨fun ⟨hkeyed, hsources, hapart, hunreserved⟩ => ⟨hkeyed, hsources, hapart, hunreserved⟩,
      fun h => ⟨h.keyed, h.sources, h.apart, h.unreserved⟩⟩

theorem names_childForms (children : List (String × Schema)) :
    (childForms children).names = children.map Prod.fst := by
  induction children with
  | nil => rw [childForms]; rfl
  | cons c children ih =>
    obtain ⟨name, child⟩ := c
    rw [childForms, List.map_cons, ← ih]
    rfl

namespace Presentable

/-- The members of a level keep their places. -/
theorem toJson_eq (h : s.Presentable) :
    s.toJson = .obj (levelMembers s ++ childForms s.children) := by
  have hnames : ((levelMembers s).names ++ (childForms s.children).names).Nodup := by
    rw [names_childForms]
    refine List.nodup_append.mpr ⟨by simp [levelMembers, Members.names], h.apart, ?_⟩
    rintro name hname _ hchild rfl
    obtain ⟨c, hc, rfl⟩ := List.mem_map.mp hchild
    exact h.unreserved c hc hname
  obtain ⟨pk, columns, array, sort, children⟩ := s
  rw [toJson, Members.insertAll_of_disjoint hnames]

theorem columns_eq (h : s.Presentable) :
    .obj (Members.insertAll [] (s.columns.map fun c => (c.1, Json.str c.2)))
      = ofRenamings s.columns := by
  rw [ofRenamings, Members.insertAll_of_disjoint, List.nil_append]
  simpa [Members.names, Function.comp_def] using h.sources

end Presentable

theorem childrenOf_levelMembers_append (s : Schema) (members : Members) :
    childrenOf (levelMembers s ++ members) = childrenOf members := by
  simp [levelMembers, childrenOf, isOwn]

/-- A level is read from its JSON form when its children are. -/
theorem Presentable.ofJson_toJson_of_children (h : s.Presentable)
    (hchildren : childrenOf (childForms s.children) = .ok s.children) :
    ofJson s.toJson = .ok s := by
  rw [h.toJson_eq, ofJson_obj_eq_ok_iff, childrenOf_levelMembers_append]
  -- each member of the level is found by its name before the children are reached
  refine ⟨rfl, ?sort, ?pk, ?columns, hchildren⟩
  case sort =>
    show sortOf (some (Json.ofOption .str s.sort)) = .ok s.sort
    cases s.sort <;> rfl
  case pk =>
    show pkOf (ofStrings s.pk) = .ok s.pk
    exact pkOf_eq_ok_iff.mpr (Or.inr ⟨rfl, h.keyed⟩)
  case columns =>
    show columnsOf (.obj (Members.insertAll [] (s.columns.map fun c => (c.1, .str c.2))))
      = .ok s.columns
    rw [h.columns_eq]
    exact columnsOf_eq_ok_iff.mpr (Or.inr (Or.inr rfl))

mutual

/-- Schemas that JSON can hold are read from their JSON form. -/
theorem ofJson_toJson : (s : Schema) → (∀ n ∈ s.nodes, n.Presentable) → ofJson s.toJson = .ok s
  | ⟨pk, columns, array, sort, children⟩, h => by
    rw [nodes_eq, List.forall_mem_cons] at h
    exact h.1.ofJson_toJson_of_children (childrenOf_childForms children h.1.unreserved h.2)

theorem childrenOf_childForms : (children : List (String × Schema)) →
    (∀ c ∈ children, c.1 ∉ reserved) → (∀ n ∈ nodesOf children, n.Presentable) →
    childrenOf (childForms children) = .ok children
  | [], _, _ => by
    rw [childForms, childrenOf]
  | (name, child) :: children, hnames, h => by
    rw [List.forall_mem_cons, ← isOwn_iff] at hnames
    rw [nodesOf, List.forall_mem_append] at h
    rw [childForms, childrenOf, if_neg hnames.1, ofJson_toJson child h.1,
      childrenOf_childForms children hnames.2 h.2]
    rfl

end

/-! ### Reading schemas -/

/-- The values from which a schema is read are those that describe one; every
level of such a schema has key columns; and a schema whose levels have key
columns, take no column twice and have children with names of their own is read
from its JSON form. -/
theorem ofJson_accepts_and_restores :
    (∀ json, (∃ s, ofJson json = .ok s) ↔ json.IsSchema)
      ∧ (∀ json s, ofJson json = .ok s → ∀ n ∈ s.nodes, n.pk ≠ [])
      ∧ ∀ s : Schema, (∀ n ∈ s.nodes, n.Presentable) → ofJson s.toJson = .ok s := by
  refine ⟨fun json => ⟨?_, exists_ofJson_of_isSchema⟩, ?_, ofJson_toJson⟩
  · rintro ⟨s, h⟩
    exact isSchema_of_ofJson h
  · intro json s h n hn
    exact pk_ne_nil_of_mem_nodes h hn

/-- Invoices with a sorted list of lines, which have at most one item each, and
with a payer. -/
def invoices : Schema :=
  (((keyed ["id"]).withColumns [("id", "number"), ("due", "due")]).withChild "lines"
    (((((keyed ["invoice", "line"]).withColumns [("line", "position"), ("qty", "quantity")]).asArray
      ).sortedBy "position").withChild "item" ((keyed ["item"]).withColumns [("item", "item")])
    )).withChild "payer" (keyed ["payer"])

/-- The schema of invoices is read from the JSON that it is written as. -/
theorem ofJson_accepts_and_restores_invoices :
    (∀ n ∈ invoices.nodes, n.Presentable)
      ∧ invoices.toJson =
        .obj [("pk", ofStrings ["id"]),
          ("columns", ofRenamings [("id", "number"), ("due", "due")]),
          ("array", .bool false), ("sort", .null),
          ("lines", .obj [("pk", ofStrings ["invoice", "line"]),
            ("columns", ofRenamings [("line", "position"), ("qty", "quantity")]),
            ("array", .bool true), ("sort", .str "position"),
            ("item", .obj [("pk", ofStrings ["item"]), ("columns", ofRenamings [("item", "item")]),
              ("array", .bool false), ("sort", .null)])]),
          ("payer", .obj [("pk", ofStrings ["payer"]), ("columns", ofRenamings []),
            ("array", .bool false), ("sort", .null)])]
      ∧ ofJson invoices.toJson = .ok invoices
      ∧ invoices.toJson.IsSchema
      ∧ ∀ n ∈ invoices.nodes, n.pk ≠ [] := by
  obtain ⟨haccepts, hkeyed, hrestores⟩ := ofJson_accepts_and_restores
  have hnodes : ∀ n ∈ invoices.nodes, n.Presentable := by decide
  have hread := hrestores invoices hnodes
  exact ⟨hnodes, rfl, hread, (haccepts _).mp ⟨invoices, hread⟩, hkeyed _ _ hread⟩

end Schema

end CriteriaSql
