/-
CriteriaSql/Proofs/Statement/Keyset.lean

What paging by key selects.

A query that pages by key compares the tuple of its sort expressions with the
values on the last row of the page before.  SQL compares tuples
lexicographically, with one operator for all places, while ORDER BY has a
direction for each entry.  Here both are given their meaning on rows: a
`RowComparison` by the first place where the two tuples differ, and a list of
`SortKey`s by the sort order it puts rows in.

Main results: the comparison of a query holds of the rows that sort strictly
after the last row when every entry is taken in the direction of the first one
(`beyond_iff`), so it selects the next page of the order that the query asks for
when all entries have one direction (`keyset_iff_after`).  With entries of both
directions it does not (`not_forall_keyset_iff_after`).
-/
import CriteriaSql.Proofs.Statement.Select
import Mathlib.Data.Nat.Basic
import Mathlib.Order.Lattice

namespace CriteriaSql

/-! ### Entries of ORDER BY -/

/-- An entry of ORDER BY. -/
structure SortKey where
  expression : String
  direction : Option Direction
  nulls : Option NullsPlacement

namespace SortKey

/-- The text of the entry. -/
def text (k : SortKey) : String :=
  k.expression ++ (k.direction.map Direction.sql).getD ""
    ++ (k.nulls.map NullsPlacement.sql).getD ""

/-- Without a direction an entry ascends. -/
def isDescending (k : SortKey) : Bool :=
  k.direction = some .descending

/-- The entry in another direction. -/
def turned (k : SortKey) (descending : Bool) : SortKey :=
  { k with direction := some (if descending then .descending else .ascending) }

@[simp] theorem isDescending_turned (k : SortKey) (descending : Bool) :
    (k.turned descending).isDescending = descending := by
  cases descending <;> rfl

@[simp] theorem expression_turned (k : SortKey) (descending : Bool) :
    (k.turned descending).expression = k.expression := rfl

end SortKey

/-- The entry of ORDER BY for an entry of an order. -/
def OrderEntry.sortKey (o : OrderEntry) (entity : Entity) (document : Bool) :
    Except UsageFault SortKey := do
  let expression ← o.expression entity document
  return ⟨expression, o.direction, o.nulls⟩

/-! ### Comparisons of tuples -/

/-- A comparison of a tuple of expressions with a tuple of placeholders: the
operator is `<` when `less` is set, and `>` otherwise. -/
structure RowComparison where
  less : Bool
  expressions : List String
  placeholders : List Nat

def RowComparison.text (c : RowComparison) : String :=
  Select.tuple c.expressions ++ (if c.less then " < " else " > ")
    ++ Select.tuple (c.placeholders.map placeholder)

/-! ### Meaning

Every expression has a value on a row, in a totally ordered type of its own, and
a parameter is read as a value of the type of the expression it is compared
with. -/

section Meaning

variable {τ : String → Type} [∀ e, LinearOrder (τ e)]
variable (row : (e : String) → τ e) (read : (e : String) → Json → τ e)

/-- How the row stands to a value under one sort key. -/
def SortKey.compareRow (k : SortKey) (v : Json) : Ordering :=
  let o := compare (row k.expression) (read k.expression v)
  if k.isDescending then o.swap else o

/-- How the row stands to a tuple of values in the order of the keys: the first
key on which they differ decides. -/
def sortOrder : List SortKey → List Json → Ordering
  | k :: ks, v :: vs => (k.compareRow row read v).then (sortOrder ks vs)
  | _, _ => .eq

/-- Whether a tuple of expressions is less or greater than a tuple of values: the
first place in which they differ decides, and tuples that differ in no place are
neither. -/
def Beyond (less : Bool) : List String → List Json → Prop
  | e :: es, v :: vs =>
    (if less then row e < read e v else read e v < row e)
      ∨ row e = read e v ∧ Beyond less es vs
  | _, _ => False

/-- Whether the comparison holds of the row; the placeholder `$n` stands for the
parameter with the number `n`. -/
def RowComparison.Holds (c : RowComparison) (params : List Json) : Prop :=
  Beyond row read c.less c.expressions
    (c.placeholders.map fun n => (params[n - 1]?).getD .null)

/-! ### One operator and one direction -/

variable {row read}

theorem SortKey.compareRow_eq_gt_iff {k : SortKey} {v : Json} :
    k.compareRow row read v = .gt ↔
      if k.isDescending then row k.expression < read k.expression v
      else read k.expression v < row k.expression := by
  unfold compareRow
  cases k.isDescending with
  | true => simp [Ordering.swap_eq_gt, compare_lt_iff_lt]
  | false => simp [compare_gt_iff_gt]

theorem SortKey.compareRow_eq_eq_iff {k : SortKey} {v : Json} :
    k.compareRow row read v = .eq ↔ row k.expression = read k.expression v := by
  unfold compareRow
  cases k.isDescending with
  | true => simp [Ordering.swap_eq_eq]
  | false => simp

/-- A comparison with one operator is the order in which every key has the
direction of the operator. -/
theorem beyond_iff {less : Bool} {ks : List SortKey} {vs : List Json}
    (hks : ∀ k ∈ ks, k.isDescending = less) :
    Beyond row read less (ks.map SortKey.expression) vs ↔ sortOrder row read ks vs = .gt := by
  induction ks generalizing vs with
  | nil => simp [Beyond, sortOrder]
  | cons k ks ih =>
    obtain ⟨hk, hks⟩ := List.forall_mem_cons.mp hks
    cases vs with
    | nil => simp [Beyond, sortOrder]
    | cons v vs =>
      rw [List.map_cons, Beyond, sortOrder, Ordering.then_eq_gt, SortKey.compareRow_eq_gt_iff,
        SortKey.compareRow_eq_eq_iff, ih hks, hk]

theorem beyond_iff_turned (less : Bool) (ks : List SortKey) (vs : List Json) :
    Beyond row read less (ks.map SortKey.expression) vs ↔
      sortOrder row read (ks.map fun k => k.turned less) vs = .gt := by
  have hexpressions : ks.map SortKey.expression
      = (ks.map fun k => k.turned less).map SortKey.expression := by
    simp [Function.comp_def]
  rw [hexpressions]
  apply beyond_iff
  simp

end Meaning

/-- The comparison holds of the rows that sort strictly after the tuple `vs`,
whatever the types of the expressions and their values on the row. -/
def RowComparison.SelectsAfter (c : RowComparison) (params : List Json) (ks : List SortKey)
    (vs : List Json) : Prop :=
  ∀ (τ : String → Type) [∀ e, LinearOrder (τ e)] (row : (e : String) → τ e)
    (read : (e : String) → Json → τ e),
    c.Holds row read params ↔ sortOrder row read ks vs = .gt

/-! ### Rows that show a direction -/

/-- A row that differs from the tuple of zeros at one expression only. -/
def spike (expression : String) : (e : String) → Nat :=
  fun e => if e = expression then 1 else 0

/-- Every parameter read as zero. -/
def readZero : (e : String) → Json → Nat :=
  fun _ _ => 0

theorem beyond_spike_iff {less : Bool} {expression : String} {es : List String} {vs : List Json}
    (hlength : es.length = vs.length) (he : expression ∈ es) :
    Beyond (spike expression) readZero less es vs ↔ less = false := by
  induction es generalizing vs with
  | nil => cases he
  | cons e es ih =>
    obtain ⟨v, vs, rfl⟩ := List.exists_cons_of_length_eq_add_one hlength.symm
    by_cases h : e = expression
    · cases less <;> simp [Beyond, spike, readZero, h]
    · have he : expression ∈ es := List.mem_of_ne_of_mem (Ne.symm h) he
      have hlength : es.length = vs.length := by simpa using hlength
      have hrest := ih hlength he
      cases less <;> simpa [Beyond, spike, readZero, h] using hrest

/-- The row sorts after the zeros exactly where the key of its expression
ascends. -/
theorem sortOrder_spike_iff {k : SortKey} {ks : List SortKey} {vs : List Json}
    (hlength : ks.length = vs.length) (hdistinct : (ks.map SortKey.expression).Nodup)
    (hk : k ∈ ks) :
    sortOrder (spike k.expression) readZero ks vs = .gt ↔ k.isDescending = false := by
  induction ks generalizing vs with
  | nil => cases hk
  | cons k' ks ih =>
    obtain ⟨v, vs, rfl⟩ := List.exists_cons_of_length_eq_add_one hlength.symm
    obtain ⟨hk', hdistinct⟩ := List.nodup_cons.mp hdistinct
    rw [sortOrder, Ordering.then_eq_gt, SortKey.compareRow_eq_gt_iff,
      SortKey.compareRow_eq_eq_iff]
    rcases List.mem_cons.mp hk with rfl | hk
    · cases h : k.isDescending <;> simp [spike, readZero]
    · -- the keys before `k` have other expressions, on which the row is zero
      have hne : k'.expression ≠ k.expression := by
        intro h
        exact hk' (h ▸ List.mem_map_of_mem hk)
      have hlength : ks.length = vs.length := by simpa using hlength
      have hrest := ih hlength hdistinct hk
      simpa [spike, readZero, hne] using hrest

/-- Where no expression occurs twice, a comparison that agrees with the order on
all rows has the direction of every key. -/
theorem isDescending_of_forall_beyond_iff {less : Bool} {ks : List SortKey} {vs : List Json}
    (hlength : ks.length = vs.length) (hdistinct : (ks.map SortKey.expression).Nodup)
    (h : ∀ row : (e : String) → Nat, Beyond row readZero less (ks.map SortKey.expression) vs ↔
      sortOrder row readZero ks vs = .gt) {k : SortKey} (hk : k ∈ ks) :
    k.isDescending = less := by
  have hspike := h (spike k.expression)
  rw [beyond_spike_iff (by simpa using hlength) (List.mem_map_of_mem hk),
    sortOrder_spike_iff hlength hdistinct hk] at hspike
  cases hless : less <;> cases hdescending : k.isDescending <;> simp_all

/-! ### Queries -/

namespace Select

variable {entity : Entity} {document : Bool}

theorem expression_eq_map_sortKey (o : OrderEntry) :
    o.expression entity document = (o.sortKey entity document).map SortKey.expression := by
  unfold OrderEntry.sortKey
  cases o.expression entity document <;> rfl

theorem sql_eq_map_sortKey (o : OrderEntry) :
    o.sql entity document = (o.sortKey entity document).map SortKey.text := by
  unfold OrderEntry.sortKey OrderEntry.sql
  cases o.expression entity document <;> rfl

/-- Paging by key needs an order. -/
theorem pageOf_ne_ok_of_nil {options : Options} {offset : Nat} {k : Option Clause}
    (hpage : options.pageLength.isSome) (horder : options.order = some []) :
    pageOf entity options offset ≠ .ok k := by
  have hsome : options.pageLength.isNone = false := by simpa using hpage
  unfold pageOf
  rw [hsome, horder]
  intro h
  simp only [Bool.false_eq_true, if_false, Option.getD_some] at h
  split at h <;> cases h

/-- The comparison of a query that pages by key, after `offset` parameters. -/
def pageComparison (order : List OrderEntry) (keys : List SortKey) (offset : Nat) :
    RowComparison :=
  ⟨descends order, keys.map SortKey.expression, List.range' (offset + 1) order.length⟩

/-- The comparison with the last row, when every entry has a value there. -/
theorem keysetOf_eq_ok {offset : Nat} {order : List OrderEntry} {k : Option Clause}
    (hne : order ≠ []) (hlast : ∀ o ∈ order, o.last.isSome)
    (h : keysetOf entity document offset order = .ok k) :
    ∃ keys, order.mapM (fun o => o.sortKey entity document) = .ok keys
      ∧ k = some ⟨(pageComparison order keys offset).text, order.filterMap OrderEntry.last⟩ := by
  have hlength : (order.filterMap OrderEntry.last).length = order.length :=
    List.filterMap_length_eq_length.mpr hlast
  have hempty : (order.filterMap OrderEntry.last).isEmpty = false := by
    rw [List.isEmpty_eq_false_iff, ne_eq, ← List.length_eq_zero_iff, hlength,
      List.length_eq_zero_iff]
    exact hne
  have hplaceholders : placeholdersFrom offset order.length
      = (List.range' (offset + 1) order.length).map placeholder := by
    simp [placeholdersFrom, List.range'_eq_map_range, Function.comp_def, Nat.add_right_comm]
  unfold keysetOf at h
  dsimp only at h
  rw [hempty, hlength] at h
  simp only [Bool.false_eq_true, if_false, ne_eq, not_true_eq_false, expression_eq_map_sortKey,
    mapM_map_eq] at h
  obtain ⟨expressions, hexpressions, h⟩ := bind_eq_ok_iff.mp h
  obtain ⟨keys, hkeys, rfl⟩ := map_eq_ok_iff.mp hexpressions
  refine ⟨keys, hkeys, ?_⟩
  rw [← Except.ok.inj h, hplaceholders]
  rfl

theorem orderOf_eq_ok {options : Options} {order : List OrderEntry} {text : Option String}
    {keys : List SortKey} (horder : options.order = some order) (hne : order ≠ [])
    (hkeys : order.mapM (fun o => o.sortKey entity (options.isDocument entity)) = .ok keys)
    (h : orderOf entity options = .ok text) :
    text = some (", ".intercalate (keys.map SortKey.text)) := by
  unfold orderOf at h
  rw [horder, Option.getD_some] at h
  split at h
  · exact absurd rfl hne
  · simp only [sql_eq_map_sortKey, mapM_map_eq, hkeys] at h
    exact (Except.ok.inj h).symm

/-- The placeholders after the parameters of the filter stand for the values of
the last row. -/
theorem values_placeholders (front back : List Json) :
    (List.range' (front.length + 1) back.length).map
      (fun n => ((front ++ back)[n - 1]?).getD .null) = back := by
  apply List.ext_getElem
  · simp
  · intro i _ hi
    simp [Nat.add_right_comm front.length 1, hi]

/-- The comparison takes the direction of the first key. -/
theorem exists_isDescending_eq_descends {order : List OrderEntry} {keys : List SortKey}
    (hne : order ≠ []) (hkeys : order.mapM (fun o => o.sortKey entity document) = .ok keys) :
    ∃ k ∈ keys, k.isDescending = descends order := by
  obtain ⟨o, order, rfl⟩ := List.exists_cons_of_ne_nil hne
  rw [List.mapM_cons] at hkeys
  obtain ⟨k, hk, hkeys⟩ := bind_eq_ok_iff.mp hkeys
  obtain ⟨ks, -, hkeys⟩ := bind_eq_ok_iff.mp hkeys
  obtain ⟨expression, -, hk⟩ := bind_eq_ok_iff.mp hk
  obtain rfl := Except.ok.inj hkeys
  obtain rfl := Except.ok.inj hk
  exact ⟨_, List.mem_cons_self, rfl⟩

/-- On the parameters of the query, the comparison is one with the values of the
last row. -/
theorem selectsAfter_pageComparison_iff {order : List OrderEntry} {keys ks : List SortKey}
    {front : List Json} (hlength : (order.filterMap OrderEntry.last).length = order.length) :
    (pageComparison order keys front.length).SelectsAfter
        (front ++ order.filterMap OrderEntry.last) ks (order.filterMap OrderEntry.last) ↔
      ∀ (τ : String → Type) [∀ e, LinearOrder (τ e)] (row : (e : String) → τ e)
        (read : (e : String) → Json → τ e),
        Beyond row read (descends order) (keys.map SortKey.expression)
            (order.filterMap OrderEntry.last) ↔
          sortOrder row read ks (order.filterMap OrderEntry.last) = .gt := by
  have hvalues := values_placeholders front (order.filterMap OrderEntry.last)
  rw [hlength] at hvalues
  simp only [RowComparison.SelectsAfter, RowComparison.Holds, pageComparison, hvalues]

/-- A query that pages by key, with the value on the last row for every entry.

Its comparison and its ORDER BY have the same expressions in the same order.
The comparison selects the rows that sort strictly after the last row when every
entry is turned into the direction of the first one.  So it selects the rows
that sort strictly after the last row in the order of the query itself when all
entries have one direction; and where no expression occurs twice, only then. -/
theorem keyset_iff_after {entity : Entity} {filter : Clause} {options : Options} {s : Select}
    {order : List OrderEntry} (hs : withClause entity filter options = .ok s)
    (hpage : options.pageLength.isSome) (horder : options.order = some order)
    (hlast : ∀ o ∈ order, ∃ v, o.last = some v ∧ v ≠ .null) :
    ∃ keys, order.mapM (fun o => o.sortKey entity (options.isDocument entity)) = .ok keys
      ∧ s.sql = "SELECT " ++ options.projection ++ " FROM " ++ options.onlyWord ++ entity.fullName
          ++ " WHERE " ++ ("(" ++ filter.conditions ++ ") AND "
            ++ (pageComparison order keys filter.params.length).text)
          ++ (" ORDER BY " ++ ", ".intercalate (keys.map SortKey.text)) ++ window options
      ∧ (pageComparison order keys filter.params.length).SelectsAfter s.params
          (keys.map fun k => k.turned (descends order)) (order.filterMap OrderEntry.last)
      ∧ ((∀ k ∈ keys, ∀ k' ∈ keys, k.isDescending = k'.isDescending) →
          (pageComparison order keys filter.params.length).SelectsAfter s.params keys
            (order.filterMap OrderEntry.last))
      ∧ ((keys.map SortKey.expression).Nodup →
          (pageComparison order keys filter.params.length).SelectsAfter s.params keys
            (order.filterMap OrderEntry.last) →
          ∀ k ∈ keys, ∀ k' ∈ keys, k.isDescending = k'.isDescending) := by
  have hlast : ∀ o ∈ order, o.last.isSome := by
    intro o ho
    obtain ⟨v, hv, -⟩ := hlast o ho
    rw [hv]
    rfl
  have hlength : (order.filterMap OrderEntry.last).length = order.length :=
    List.filterMap_length_eq_length.mpr hlast
  obtain ⟨hpageOf, horderOf, hsource, hfilter, hoptions⟩ := withClause_eq_ok hs
  have hne : order ≠ [] := by
    rintro rfl
    exact absurd hpageOf (pageOf_ne_ok_of_nil hpage horder)
  rcases pageOf_eq_ok hpageOf with ⟨hnone, -⟩ | ⟨-, hkeyset⟩
  · rw [hnone] at hpage
    cases hpage
  rw [horder, Option.getD_some] at hkeyset
  obtain ⟨keys, hkeys, hkeyset⟩ := keysetOf_eq_ok hne hlast hkeyset
  have horderBy := orderOf_eq_ok horder hne hkeys horderOf
  have hlasts : lastValues options = order.filterMap OrderEntry.last := by
    have hsome : options.pageLength.isNone = false := by simpa using hpage
    rw [lastValues, horder, hsome]
    rfl
  have hparams : s.params = filter.params ++ order.filterMap OrderEntry.last := by
    rw [params_withClause hs, hlasts]
  have hkeysLength : keys.length = (order.filterMap OrderEntry.last).length := by
    rw [hlength]
    exact length_of_mapM_eq_ok hkeys
  obtain ⟨first, hfirst, hdirection⟩ := exists_isDescending_eq_descends hne hkeys
  refine ⟨keys, hkeys, ?_, ?_, ?_, ?_⟩
  · unfold sql condition
    rw [hkeyset, horderBy, hsource, hfilter, hoptions]
  · rw [hparams, selectsAfter_pageComparison_iff hlength]
    intro τ _ row read
    exact beyond_iff_turned _ keys _
  · intro hsame
    rw [hparams, selectsAfter_pageComparison_iff hlength]
    intro τ _ row read
    exact beyond_iff fun k hk => (hsame k hk first hfirst).trans hdirection
  · intro hdistinct hselects
    rw [hparams, selectsAfter_pageComparison_iff hlength] at hselects
    have hdescending : ∀ k ∈ keys, k.isDescending = descends order := fun k hk =>
      isDescending_of_forall_beyond_iff hkeysLength hdistinct
        (fun row => hselects (fun _ => Nat) row readZero) hk
    intro k hk k' hk'
    rw [hdescending k hk, hdescending k' hk']

/-- Entries with values on the last row page, as far as they have expressions. -/
theorem exists_withClause {options : Options} {order : List OrderEntry} {keys : List SortKey}
    (filter : Clause) (hpage : options.pageLength.isSome)
    (hwindow : options.offset = none ∧ options.limit = none) (horder : options.order = some order)
    (hne : order ≠ []) (hlast : ∀ o ∈ order, o.last.isSome)
    (hkeys : order.mapM (fun o => o.sortKey entity (options.isDocument entity)) = .ok keys) :
    ∃ s, withClause entity filter options = .ok s := by
  have hlength : (order.filterMap OrderEntry.last).length = order.length :=
    List.filterMap_length_eq_length.mpr hlast
  have hkeyset : ∃ k, keysetOf entity (options.isDocument entity) filter.params.length order
      = .ok k := by
    unfold keysetOf
    simp only [hlength, expression_eq_map_sortKey, mapM_map_eq, hkeys, ne_eq, not_true_eq_false,
      if_false]
    split
    · exact ⟨_, rfl⟩
    · exact ⟨_, rfl⟩
  have horderBy : ∃ text, orderOf entity options = .ok text := by
    unfold orderOf
    rw [horder, Option.getD_some]
    split
    · exact ⟨_, rfl⟩
    · simp only [sql_eq_map_sortKey, mapM_map_eq, hkeys]
      exact ⟨_, rfl⟩
  obtain ⟨k, hk⟩ := hkeyset
  obtain ⟨text, htext⟩ := horderBy
  have hpageOf : pageOf entity options filter.params.length = .ok k := by
    have hsome : options.pageLength.isNone = false := by simpa using hpage
    unfold pageOf
    rw [hsome, hwindow.1, hwindow.2, horder, Option.getD_some]
    cases order with
    | nil => exact absurd rfl hne
    | cons o order => exact hk
  unfold withClause
  rw [hpageOf, htext]
  exact ⟨_, rfl⟩

/-! ### Pages in one direction and in two -/

/-- The options of a page of five rows. -/
def pageOptions (order : List OrderEntry) : Options :=
  { Options.none with order := some order, pageLength := some 5 }

/-- By descending age after 30, and then by name after "n". -/
def byAgeAndName (direction : Option Direction) : List OrderEntry :=
  [((OrderEntry.byField "age").descending).after (.ofInt 30),
    { OrderEntry.byExpr "lower(name)" with direction, last := some (.str "n") }]

def ageAndNameKeys (direction : Option Direction) : List SortKey :=
  [⟨"\"age\"", some .descending, none⟩, ⟨"lower(name)", direction, none⟩]

theorem sortKeys_byAgeAndName (direction : Option Direction) :
    (byAgeAndName direction).mapM (fun o => o.sortKey (Entity.table "" "t")
        ((pageOptions (byAgeAndName direction)).isDocument (Entity.table "" "t")))
      = .ok (ageAndNameKeys direction) := by
  have hparse : Key.parse "age" = ⟨"age", [], none, ""⟩ := by decide +kernel
  have hfield : OrderEntry.fieldExpression (Entity.table "" "t") false "age" = "\"age\"" := by
    rw [OrderEntry.fieldExpression, hparse]
    rfl
  rw [byAgeAndName, List.mapM_cons]
  show ((Except.ok (OrderEntry.fieldExpression (Entity.table "" "t") false "age") >>= _) >>= _) = _
  rw [hfield]
  rfl

theorem last_byAgeAndName (direction : Option Direction) :
    ∀ o ∈ byAgeAndName direction, ∃ v, o.last = some v ∧ v ≠ .null := by
  simp [byAgeAndName, OrderEntry.after, Json.ofInt]

theorem exists_withClause_byAgeAndName (direction : Option Direction) :
    ∃ s, withClause (Entity.table "" "t") .always (pageOptions (byAgeAndName direction))
      = .ok s := by
  have hlast : ∀ o ∈ byAgeAndName direction, o.last.isSome := by
    intro o ho
    obtain ⟨v, hv, -⟩ := last_byAgeAndName direction o ho
    rw [hv]
    rfl
  exact exists_withClause _ rfl ⟨rfl, rfl⟩ rfl (List.cons_ne_nil _ _) hlast
    (sortKeys_byAgeAndName direction)

/-- The page after an age and a name, both descending. -/
theorem keyset_iff_after_descending :
    ∃ s, withClause (Entity.table "" "t") .always (pageOptions (byAgeAndName (some .descending)))
        = .ok s
      ∧ (∀ o ∈ byAgeAndName (some .descending), ∃ v, o.last = some v ∧ v ≠ .null)
      ∧ s.sql = "SELECT * FROM \"t\" WHERE (TRUE) AND (\"age\", lower(name)) < ($1, $2)"
          ++ " ORDER BY \"age\" DESC, lower(name) DESC FETCH FIRST 5 ROWS ONLY"
      ∧ RowComparison.SelectsAfter ⟨true, ["\"age\"", "lower(name)"], [1, 2]⟩ s.params
          (ageAndNameKeys (some .descending)) [.ofInt 30, .str "n"] := by
  obtain ⟨s, hs⟩ := exists_withClause_byAgeAndName (some .descending)
  have hlast := last_byAgeAndName (some .descending)
  obtain ⟨keys, hkeys, hsql, -, hselects, -⟩ := keyset_iff_after hs rfl rfl hlast
  obtain rfl : keys = ageAndNameKeys (some .descending) :=
    Except.ok.inj (hkeys.symm.trans (sortKeys_byAgeAndName _))
  refine ⟨s, hs, hlast, hsql.trans ?_, hselects ?_⟩
  · decide +kernel
  · simp [ageAndNameKeys, SortKey.isDescending]

/-- After an age that descends and a name that ascends, the comparison selects
the rows of the same age with a lesser name, which sort before the last row. -/
theorem not_forall_keyset_iff_after :
    ¬ ∀ (entity : Entity) (filter : Clause) (options : Options) (s : Select)
        (order : List OrderEntry) (keys : List SortKey),
      withClause entity filter options = .ok s → options.pageLength.isSome →
      options.order = some order → (∀ o ∈ order, ∃ v, o.last = some v ∧ v ≠ .null) →
      order.mapM (fun o => o.sortKey entity (options.isDocument entity)) = .ok keys →
      (pageComparison order keys filter.params.length).SelectsAfter s.params keys
        (order.filterMap OrderEntry.last) := by
  intro h
  obtain ⟨s, hs⟩ := exists_withClause_byAgeAndName none
  have hselects := h _ _ _ s _ _ hs rfl rfl (last_byAgeAndName none) (sortKeys_byAgeAndName none)
  rw [params_withClause hs] at hselects
  replace hselects := (selectsAfter_pageComparison_iff rfl).mp hselects
  have hname : (⟨"lower(name)", none, none⟩ : SortKey) ∈ ageAndNameKeys none := by
    simp [ageAndNameKeys]
  have hdistinct : ((ageAndNameKeys none).map SortKey.expression).Nodup := by decide
  -- the name would have to descend as the age does
  have hdescending := isDescending_of_forall_beyond_iff rfl hdistinct
    (fun row => hselects (fun _ => Nat) row readZero) hname
  exact absurd hdescending (by decide)

end Select

end CriteriaSql
