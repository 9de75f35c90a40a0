/-
CriteriaSql/Proofs/Nesting/Unjoin.lean

Nesting undoes a left join.

The rows that reach a level show, in its columns, the rows of its objects in
their order, up to the repetitions that the other levels cause
(`Schema.Shows`).  So the keys at the level are those of its objects
(`Schema.keysOf_of_shows`), and the rows under the key of an object show that
object alone (`Schema.under_of_shows`), its own values as well as the
combinations of its children (`Schema.shows_children`).  The induction over the
schema carries this to every level (`Schema.grouped_eq_objects`,
`Schema.withChildren_eq`).

Main result: nesting the rows of objects yields these objects, in order
(`Schema.decompose_expand`).
-/
import CriteriaSql.Proofs.Nesting.Grouping
import CriteriaSql.Proofs.Nesting.LeftJoin

namespace CriteriaSql

/-! ### Rows seen through columns -/

/-- In the given columns, rows show the others, up to repetitions. -/
def ShowIn (columns : List String) (rows rows' : List Row) : Prop :=
  SameFirsts (rows.map (Members.restrict columns)) rows'

/-- Rows seen through fewer columns. -/
theorem ShowIn.restrict {columns : List String} {rows rows' : List Row}
    (h : ShowIn columns rows rows') (columns' : List String)
    (hsub : ∀ column ∈ columns', column ∈ columns) :
    ShowIn columns' rows (rows'.map (Members.restrict columns')) := by
  have hview := SameFirsts.map h (Members.restrict columns')
  have hrows : (rows.map (Members.restrict columns)).map (Members.restrict columns')
      = rows.map (Members.restrict columns') := by
    rw [List.map_map]
    exact List.map_congr_left fun row _ => Members.restrict_restrict hsub row
  rwa [hrows] at hview

section Product

variable {columns : List String} {row : Row} {rests : List Row}

/-- The second side of a product, seen through its own columns. -/
theorem map_restrict_of_right (hrow : ∀ name ∈ row.names, name ∉ columns)
    (hrests : ∀ rest ∈ rests, ∀ name ∈ rest.names, name ∈ columns) :
    (rests.map (row ++ ·)).map (Members.restrict columns) = rests := by
  conv_rhs => rw [← List.map_id rests]
  rw [List.map_map]
  apply List.map_congr_left
  intro rest hrest
  exact Members.restrict_append_of_right hrow (hrests rest hrest)

/-- The first side of a product, seen through its own columns. -/
theorem map_restrict_of_left (hrow : ∀ name ∈ row.names, name ∈ columns)
    (hrests : ∀ rest ∈ rests, ∀ name ∈ rest.names, name ∉ columns) :
    (rests.map (row ++ ·)).map (Members.restrict columns) = rests.map fun _ => row := by
  rw [List.map_map]
  apply List.map_congr_left
  intro rest hrest
  exact Members.restrict_append_of_left hrow (hrests rest hrest)

end Product

namespace Schema

open Members (insertAll restrict)

/-! ### Keys of rows -/

theorem rowKey_of_mem_rowsOf {s : Schema} {i : Instance} {row : Row}
    (hnonnull : ∃ v ∈ keyValues s.pk i, v ≠ .null) (hrow : row ∈ s.rowsOf i) :
    rowKey s.pk row = some (keyText (keyValues s.pk i)) := by
  have hvalues : s.pk.map row.getD = keyValues s.pk i := by
    apply List.map_congr_left
    intro column hcolumn
    rw [Members.getD, get?_of_mem_rowsOf hrow (mem_rowColumns.mpr (.inl hcolumn))]
    rfl
  obtain ⟨v, hv, hnull⟩ := hnonnull
  rw [rowKey_eq_some_iff, hvalues]
  exact ⟨lacksKey_eq_false (hvalues ▸ hv) hnull, rfl⟩

/-- Siblings have different keys. -/
theorem nodup_keyText {pk : List String} {forest : List Instance}
    (hnodup : (forest.map (keyValues pk)).Nodup)
    (hscalar : ∀ i ∈ forest, ∀ v ∈ keyValues pk i, v.IsScalar) :
    (forest.map fun i => keyText (keyValues pk i)).Nodup := by
  have hmap : (forest.map fun i => keyText (keyValues pk i))
      = (forest.map (keyValues pk)).map keyText := by
    rw [List.map_map]
    rfl
  rw [hmap]
  apply List.Nodup.map_on _ hnodup
  intro vs hvs ws hws h
  obtain ⟨i, hi, rfl⟩ := List.mem_map.mp hvs
  obtain ⟨j, hj, rfl⟩ := List.mem_map.mp hws
  exact keyText_inj (hscalar i hi) (hscalar j hj) h

theorem rowKey_restrict {pk columns : List String} (h : ∀ column ∈ pk, column ∈ columns)
    (row : Row) : rowKey pk (restrict columns row) = rowKey pk row := by
  have hvalues : pk.map (restrict columns row).getD = pk.map row.getD :=
    List.map_congr_left fun column hcolumn => Members.getD_restrict (h column hcolumn) row
  rw [rowKey_eq, rowKey_eq, lacksKey_eq_all, lacksKey_eq_all, hvalues]

/-- In the columns of a level and those below it, rows show the objects. -/
def Shows (s : Schema) (rows : List Row) (forest : List Instance) : Prop :=
  ShowIn (allColumns s.nodes) rows (outer (allColumns s.nodes) (s.expand forest))

/-- What `Fits` says of the objects of a level themselves. -/
theorem fits_iff {s : Schema} {forest : List Instance} :
    s.Fits forest ↔ (forest.map (keyValues s.pk)).Nodup ∧
      ∀ i ∈ forest, (∀ v ∈ keyValues s.pk i, v.IsScalar) ∧ (∃ v ∈ keyValues s.pk i, v ≠ .null) ∧
        FitChildren s.children i.children := by
  obtain ⟨pk, columns, array, sort, children⟩ := s
  rw [Fits]

theorem outer_expand {s : Schema} {forest : List Instance} (h : forest ≠ [])
    (columns : List String) : outer columns (s.expand forest) = forest.flatMap s.rowsOf := by
  rw [expand_eq]
  obtain ⟨i, forest, rfl⟩ := List.exists_cons_of_ne_nil h
  obtain ⟨row, rows, hrows⟩ := List.exists_cons_of_ne_nil (s.rowsOf_ne_nil i)
  rw [List.flatMap_cons, hrows]
  rfl

/-- A row of nulls has no key. -/
theorem rowKey_of_null {pk columns : List String} :
    rowKey pk (columns.map fun column => (column, .null)) = none := by
  rw [rowKey_eq_none_iff, lacksKey, List.all_eq_true]
  intro column _
  rw [Members.getD, Members.get?_map_mk columns fun _ => .null]
  split <;> rfl

section Level

variable {s : Schema} {rows : List Row} {forest : List Instance}

theorem mem_allColumns_of_mem_pk (s : Schema) :
    ∀ column ∈ s.pk, column ∈ allColumns s.nodes := by
  intro column hcolumn
  rw [allColumns_nodes, List.mem_append]
  exact .inl (mem_rowColumns.mpr (.inl hcolumn))

theorem rowKey_of_fits (hfits : s.Fits forest) :
    ∀ i ∈ forest, ∀ row ∈ s.rowsOf i, rowKey s.pk row = some (keyText (keyValues s.pk i)) :=
  fun i hi _ hrow => rowKey_of_mem_rowsOf ((fits_iff.mp hfits).2 i hi).2.1 hrow

theorem nodup_keyText_of_fits (hfits : s.Fits forest) :
    (forest.map fun i => keyText (keyValues s.pk i)).Nodup :=
  nodup_keyText (fits_iff.mp hfits).1 fun i hi => ((fits_iff.mp hfits).2 i hi).1

/-- The keys at a level are those of its objects, in their order. -/
theorem keysOf_of_shows (hfits : s.Fits forest) (hshows : s.Shows rows forest) :
    keysOf (rowKey s.pk) rows = forest.map fun i => keyText (keyValues s.pk i) := by
  rw [SameFirsts.keysOf_eq hshows (rowKey_restrict s.mem_allColumns_of_mem_pk)]
  by_cases h : forest = []
  · -- the one row of nulls has no key
    subst h
    rw [expand_eq, List.flatMap_nil, outer, keysOf, List.filterMap_cons, rowKey_of_null]
    rfl
  · rw [outer_expand h]
    exact keysOf_flatMap (rowKey_of_fits hfits) (fun i _ => s.rowsOf_ne_nil i)
      (nodup_keyText_of_fits hfits)

/-- Under the key of an object are its rows. -/
theorem under_of_shows (hfits : s.Fits forest) (hshows : s.Shows rows forest) {i : Instance}
    (hi : i ∈ forest) :
    ShowIn (allColumns s.nodes) (under (rowKey s.pk) (keyText (keyValues s.pk i)) rows)
      (s.rowsOf i) := by
  have hunder := SameFirsts.under hshows (rowKey_restrict s.mem_allColumns_of_mem_pk)
    (keyText (keyValues s.pk i))
  rwa [outer_expand (List.ne_nil_of_mem hi),
    under_flatMap (rowKey_of_fits hfits) (nodup_keyText_of_fits hfits) hi] at hunder

/-! ### The members of one object -/

variable {i : Instance}

theorem names_ownMembers (columns : List (String × String)) (i : Instance) :
    (ownMembers columns i).names = columns.map Prod.snd := by
  simp [ownMembers, Members.names, Function.comp_def]

theorem copies_of_shows {row : Row} (hrow : restrict (allColumns s.nodes) row ∈ s.rowsOf i) :
    copies s.columns row = ownMembers s.columns i := by
  rw [copies, ownMembers, ← List.filterMap_eq_map]
  apply List.filterMap_congr
  intro c hc
  have hcolumn : c.1 ∈ s.rowColumns := mem_rowColumns.mpr (.inr (List.mem_map_of_mem hc))
  have hall : c.1 ∈ allColumns s.nodes := by
    rw [allColumns_nodes]
    exact List.mem_append_left _ hcolumn
  rw [← Members.get?_restrict hall, get?_of_mem_rowsOf hrow hcolumn]
  rfl

/-- The rows of an object give it its own members, each as often as there are
rows. -/
theorem insertAll_copies (hnames : (s.columns.map Prod.snd).Nodup)
    (hrows : ShowIn (allColumns s.nodes) rows (s.rowsOf i)) :
    insertAll [] (rows.flatMap (copies s.columns)) = ownMembers s.columns i := by
  have hnames : (ownMembers s.columns i).names.Nodup := names_ownMembers s.columns i ▸ hnames
  have hcopies : ∀ row ∈ rows, copies s.columns row = ownMembers s.columns i := by
    intro row hrow
    exact copies_of_shows ((SameFirsts.mem_iff hrows _).mp (List.mem_map_of_mem hrow))
  have hne : rows ≠ [] := by
    rintro rfl
    exact s.rowsOf_ne_nil i ((SameFirsts.eq_nil_iff hrows).mp rfl)
  -- the first row gives them, and the others give them again
  obtain ⟨row, rows, rfl⟩ := List.exists_cons_of_ne_nil hne
  have hfirst : insertAll [] (ownMembers s.columns i) = ownMembers s.columns i :=
    Members.insertAll_of_disjoint hnames
  rw [List.flatMap_cons, Members.insertAll_append, hcopies row List.mem_cons_self, hfirst]
  apply Members.insertAll_of_mem hnames
  intro m hm
  obtain ⟨row', hrow', hm⟩ := List.mem_flatMap.mp hm
  rwa [hcopies row' (List.mem_cons_of_mem row hrow')] at hm

end Level

/-! ### The children of one object -/

/-- The rows of an object show the combinations of rows of its children. -/
theorem shows_children {s : Schema} {rows : List Row} {i : Instance} (hjoin : Joinable s.nodes)
    (hrows : ShowIn (allColumns s.nodes) rows (s.rowsOf i)) :
    ShowIn (allColumns (nodesOf s.children)) rows (expandChildren s.children i.children) := by
  have hview := hrows.restrict (allColumns (nodesOf s.children)) (by
    rw [allColumns_nodes]
    exact fun _ => List.mem_append_right _)
  rwa [rowsOf, map_restrict_of_right] at hview
  · rw [names_ownRow]
    exact hjoin.children.2
  · intro rest hrest
    rw [names_of_mem_expandChildren s.children hrest]
    exact fun _ hname => hname

section Siblings

variable {child : Schema} {children : List (String × Schema)} {rows : List Row}
  {forest : List Instance} {forests : List (List Instance)}

theorem names_of_mem_outer_expand {row : Row}
    (hrow : row ∈ outer (allColumns child.nodes) (child.expand forest)) :
    row.names = allColumns child.nodes :=
  names_of_mem_outer (fun _ hrow => names_of_mem_expand child hrow) hrow

/-- The combinations of rows show those of the first child. -/
theorem shows_first (hjoin : Joinable (child.nodes ++ nodesOf children))
    (hrows : ShowIn (allColumns (child.nodes ++ nodesOf children)) rows
      ((outer (allColumns child.nodes) (child.expand forest)).flatMap fun row =>
        (expandChildren children forests).map (row ++ ·))) :
    child.Shows rows forest := by
  have hview := hrows.restrict (allColumns child.nodes) (by
    rw [allColumns_append]
    exact fun _ => List.mem_append_left _)
  rw [List.map_flatMap, List.flatMap_congr fun row hrow => map_restrict_of_left ?_ ?_] at hview
  · exact SameFirsts.trans hview
      (sameFirsts_flatMap_map_const (expandChildren_ne_nil children forests) _)
  · rw [names_of_mem_outer_expand hrow]
    exact fun _ hname => hname
  · intro rest hrest
    rw [names_of_mem_expandChildren children hrest]
    exact fun name hname hname' => hjoin.append.2.2 name hname' hname

/-- The combinations of rows show those of the other children. -/
theorem shows_rest (hjoin : Joinable (child.nodes ++ nodesOf children))
    (hrows : ShowIn (allColumns (child.nodes ++ nodesOf children)) rows
      ((outer (allColumns child.nodes) (child.expand forest)).flatMap fun row =>
        (expandChildren children forests).map (row ++ ·))) :
    ShowIn (allColumns (nodesOf children)) rows (expandChildren children forests) := by
  have hview := hrows.restrict (allColumns (nodesOf children)) (by
    rw [allColumns_append]
    exact fun _ => List.mem_append_right _)
  rw [List.map_flatMap, List.flatMap_congr fun row hrow => map_restrict_of_right ?_ ?_] at hview
  · exact SameFirsts.trans hview
      (sameFirsts_flatMap_const (outer_ne_nil (allColumns child.nodes) (child.expand forest)) _)
  · rw [names_of_mem_outer_expand hrow]
    exact hjoin.append.2.2
  · intro rest hrest
    rw [names_of_mem_expandChildren children hrest]
    exact fun _ hname => hname

end Siblings

/-! ### Nesting joined rows -/

/-- The objects of a child go to the end of the members. -/
theorem withChildren_cons {name : String} {child : Schema} {children : List (String × Schema)}
    {rows : List Row} {fields : Members} (hname : name ∉ fields.names) :
    withChildren ((name, child) :: children) rows fields
      = withChildren children rows
          (fields ++ childMember name child.array (grouped child rows)) := by
  rw [withChildren, childMember]
  by_cases harray : child.array
  · simp only [harray, if_true, Members.insert_of_notMem hname]
  · simp only [harray, Bool.false_eq_true, if_false]
    rcases grouped child rows with - | ⟨object, objects⟩
    · simp
    · simp [Members.insert_of_notMem hname]

theorem names_childMember_sublist (name : String) (array : Bool) (objects : List Json) :
    (childMember name array objects).names.Sublist [name] := by
  rw [childMember]
  split
  · exact List.Sublist.refl _
  · rcases objects with - | ⟨object, objects⟩
    · exact List.nil_sublist _
    · exact List.Sublist.refl _

mutual

/-- Rows that show objects at a level are grouped into these objects. -/
theorem grouped_eq_objects : ∀ (s : Schema) {rows : List Row} {forest : List Instance},
    Joinable s.nodes → s.Fits forest → s.Shows rows forest → s.grouped rows = s.objects forest
  | ⟨pk, columns, array, sort, children⟩, rows, forest, hjoin, hfits, hshows => by
    obtain rfl : sort = none := hjoin.unsorted _ (self_mem_nodes _)
    have hnamed := hjoin.named _ (self_mem_nodes _)
    rw [grouped, objects, ordered, keysOf_of_shows hfits hshows, List.map_map, List.map_map]
    apply List.map_congr_left
    intro i hi
    -- the rows under the key of an object show it alone
    have hrows := under_of_shows hfits hshows hi
    have hfields := insertAll_copies (List.nodup_append.mp hnamed).1 hrows
    have hchildren := withChildren_eq children hjoin.children.1
      ((fits_iff.mp hfits).2 i hi).2.2 (names_ownMembers columns i ▸ hnamed)
      (shows_children hjoin hrows)
    dsimp only [Function.comp_apply]
    rw [hfields, hchildren]

/-- Rows that show the combinations of children give the members of these
children. -/
theorem withChildren_eq : ∀ (children : List (String × Schema)) {rows : List Row}
    {forests : List (List Instance)} {fields : Members},
    Joinable (nodesOf children) → FitChildren children forests →
    (fields.names ++ children.map Prod.fst).Nodup →
    ShowIn (allColumns (nodesOf children)) rows (expandChildren children forests) →
    withChildren children rows fields = fields ++ childMembers children forests
  | [], _, _, _, _, _, _, _ => by
    rw [withChildren, childMembers, List.append_nil]
  | (name, child) :: children, rows, [], fields, _, hfits, _, _ => by
    simp [FitChildren] at hfits
  | (name, child) :: children, rows, forest :: forests, fields, hjoin, hfits, hnodup, hrows => by
    rw [FitChildren] at hfits
    obtain ⟨hfirst, -, hrest⟩ := hfits
    rw [nodesOf] at hjoin hrows
    rw [expandChildren, List.headD_cons, List.tail_cons] at hrows
    have hname : name ∉ fields.names := fun hname =>
      (List.nodup_append.mp hnodup).2.2 name hname name List.mem_cons_self rfl
    have hobjects := grouped_eq_objects child hjoin.append.1 hfirst (shows_first hjoin hrows)
    have hnodup' : ((fields ++ childMember name child.array (child.objects forest)).names
        ++ children.map Prod.fst).Nodup := by
      rw [Members.names_append, List.append_assoc]
      exact hnodup.sublist (((names_childMember_sublist name _ _).append_right _).append_left _)
    have hchildren := withChildren_eq children hjoin.append.2.1 hrest hnodup'
      (shows_rest hjoin hrows)
    rw [withChildren_cons hname, hobjects, hchildren, childMembers, List.append_assoc]
    rfl

end

/-- Rows of objects show these objects. -/
theorem shows_expand {s : Schema} {forest : List Instance} (h : forest ≠ []) :
    s.Shows (s.expand forest) forest := by
  have hself : (s.expand forest).map (restrict (allColumns s.nodes)) = s.expand forest := by
    conv_rhs => rw [← List.map_id (s.expand forest)]
    apply List.map_congr_left
    intro row hrow
    apply Members.restrict_eq_self
    rw [names_of_mem_expand s hrow]
    exact fun _ hname => hname
  rw [Shows, ShowIn, hself, outer_expand h, ← expand_eq]
  exact .refl _

/-- Nesting the rows of a left join yields the objects that were joined, in
order. -/
theorem decompose_expand {s : Schema} {forest : List Instance} (hjoin : Joinable s.nodes)
    (hfits : s.Fits forest) : s.decompose (s.expand forest) = .ok (s.objects forest) := by
  have hkeys : (s.expand forest).findIdx? (lacksKey s.pk) = none := by
    rw [List.findIdx?_eq_none_iff, expand_eq]
    intro row hrow
    obtain ⟨i, hi, hrow⟩ := List.mem_flatMap.mp hrow
    exact (rowKey_eq_some_iff.mp (rowKey_of_fits hfits i hi row hrow)).1
  rw [decompose_eq, hkeys]
  by_cases h : forest = []
  · have hsort : s.sort = none := hjoin.unsorted s s.self_mem_nodes
    subst h
    rw [expand_eq, List.flatMap_nil, grouped_eq, hsort]
    obtain ⟨pk, columns, array, sort, children⟩ := s
    rw [objects]
    rfl
  · rw [grouped_eq_objects s hjoin hfits (shows_expand h)]

/-- Orders with a list of lines, which have a list of tags each, and with at
most one address. -/
def orders : Schema :=
  (((Schema.keyed ["id"]).withColumns [("id", "id"), ("name", "name")]).withChild "lines"
    ((((Schema.keyed ["line", "part"]).withColumns [("part", "part")]).asArray).withChild "tags"
      (((Schema.keyed ["tag"]).withColumns [("tag", "text")]).asArray))).withChild "address"
    ((Schema.keyed ["city"]).withColumns [("city", "city")])

/-- An order with two lines, one with two tags and one without, and an order
that has an address alone. -/
def twoOrders : List Instance :=
  [⟨[("id", .ofInt 1), ("name", .str "a")],
      [[⟨[("line", .ofInt 1), ("part", .str "p")],
          [[⟨[("tag", .str "x")], []⟩, ⟨[("tag", .str "y")], []⟩]]⟩,
        ⟨[("line", .null), ("part", .str "p")], [[]]⟩], []]⟩,
    ⟨[("id", .str "1"), ("name", .null)], [[], [⟨[("city", .str "c")], []⟩]]⟩]

/-- The four rows of the two orders nest to the orders. -/
theorem decompose_expand_orders :
    Joinable orders.nodes ∧ orders.Fits twoOrders
      ∧ orders.expand twoOrders =
        [[("id", .ofInt 1), ("name", .str "a"), ("line", .ofInt 1), ("part", .str "p"),
            ("tag", .str "x"), ("city", .null)],
          [("id", .ofInt 1), ("name", .str "a"), ("line", .ofInt 1), ("part", .str "p"),
            ("tag", .str "y"), ("city", .null)],
          [("id", .ofInt 1), ("name", .str "a"), ("line", .null), ("part", .str "p"),
            ("tag", .null), ("city", .null)],
          [("id", .str "1"), ("name", .null), ("line", .null), ("part", .null),
            ("tag", .null), ("city", .str "c")]]
      ∧ orders.decompose (orders.expand twoOrders) = .ok
        [.obj [("id", .ofInt 1), ("name", .str "a"),
            ("lines", .arr
              [.obj [("part", .str "p"),
                  ("tags", .arr [.obj [("text", .str "x")], .obj [("text", .str "y")]])],
                .obj [("part", .str "p"), ("tags", .arr [])]])],
          .obj [("id", .str "1"), ("name", .null), ("lines", .arr []),
            ("address", .obj [("city", .str "c")])]] := by
  have hjoin : Joinable orders.nodes := by
    constructor <;> decide
  have hfits : orders.Fits twoOrders := by
    simp [Fits, FitChildren, keyValues, orders, twoOrders, keyed, withColumns, withChild, asArray,
      Instance.values, Instance.children, Members.getD, Members.get?, Json.ofInt,
      Json.IsScalar.null, Json.IsScalar.int, Json.IsScalar.str]
  refine ⟨hjoin, hfits, rfl, (decompose_expand hjoin hfits).trans ?_⟩
  rfl

end Schema

end CriteriaSql
