/-
CriteriaSql/Proofs/Nesting/Grouping.lean

Nesting rows is grouping them.

Rows are nested in one pass: each adds to a draft at every level that it has a
key for.  The reference goes level by level instead (`Schema.grouped`): it takes
the rows of one parent, groups them by key in the order in which the keys are
first seen, makes an object of each group, with the children made from the rows
of that group alone, and puts one object after the other in its place
(`Schema.ordered`).

What ties the two together is that the drafts of a level are at all times one
for each key seen so far, and each the outcome of the rows under its key
(`Schema.foldl_absorb`).

Main result: nesting fails at the first row without a root key, and otherwise
yields the grouped objects, in the order of the field that they are sorted by
(`Schema.decompose_eq_grouped`).
-/
import CriteriaSql.Proofs.Json.Members
import CriteriaSql.Proofs.Nesting.FirstSeen
import CriteriaSql.Proofs.Nesting.RowKey
import CriteriaSql.Proofs.Nesting.SortOrder
import Mathlib.Data.List.Induction

namespace CriteriaSql

/-! ### Drafts -/

/-- Changing the draft under one of many keys. -/
theorem Draft.change_map {k : String} {f : Draft → Draft} {draft : String → Draft}
    {ks : List String} (hks : ks.Nodup) :
    Draft.change k f (ks.map fun k' => (k', draft k'))
      = if k ∈ ks then ks.map fun k' => (k', if k' = k then f (draft k') else draft k')
        else (ks.map fun k' => (k', draft k')) ++ [(k, f Draft.empty)] := by
  induction ks with
  | nil => simp [change]
  | cons k' ks ih =>
    obtain ⟨hk', hks⟩ := List.nodup_cons.mp hks
    rw [List.map_cons, change]
    by_cases h : k' = k
    · subst h
      -- the keys that follow are others
      have hothers : ∀ k ∈ ks, k ≠ k' := by
        rintro k hk rfl
        exact hk' hk
      simp only [if_true, List.mem_cons, true_or, List.map_cons, List.cons.injEq, true_and]
      apply List.map_congr_left
      intro k hk
      rw [if_neg (hothers k hk)]
    · have hmem : k ∈ k' :: ks ↔ k ∈ ks := by
        simp [Ne.symm h]
      rw [if_neg h, ih hks]
      by_cases hk : k ∈ ks
      · rw [if_pos hk, if_pos (hmem.mpr hk), List.map_cons, if_neg h]
      · rw [if_neg hk, if_neg (hmem.not.mpr hk)]
        rfl

namespace Schema

open Members (insertAll)
open SortOrder (alike compareValues fieldOf mayPrecede)

/-- Add a row to the drafts of a level; a row without a key adds nothing. -/
def absorb (s : Schema) (drafts : List (String × Draft)) (row : Row) : List (String × Draft) :=
  match rowKey s.pk row with
  | some key => Draft.change key (fill row s) drafts
  | none => drafts

/-- The draft of an object after some rows. -/
def draftOf (s : Schema) (rows : List Row) : Draft :=
  rows.foldl (fun draft row => fill row s draft) Draft.empty

theorem draftOf_append_singleton (s : Schema) (rows : List Row) (row : Row) :
    s.draftOf (rows ++ [row]) = fill row s (s.draftOf rows) := by
  simp [draftOf]

/-- The drafts of a level: one for each key, from the rows under that key. -/
theorem foldl_absorb (s : Schema) (rows : List Row) :
    rows.foldl s.absorb []
      = (keysOf (rowKey s.pk) rows).map fun k => (k, s.draftOf (under (rowKey s.pk) k rows)) := by
  induction rows using List.reverseRecOn with
  | nil => rfl
  | append_singleton rows row ih =>
    rw [List.foldl_append, List.foldl_cons, List.foldl_nil, ih, absorb]
    rcases hkey : rowKey s.pk row with - | key
    · -- a row without a key is under no key
      dsimp only
      rw [keysOf_append_of_none hkey]
      apply List.map_congr_left
      intro k _
      rw [under_append_of_ne (by simp [hkey])]
    · dsimp only
      rw [keysOf_append_of_some hkey, Draft.change_map (nodup_keysOf _ rows)]
      split
      · -- the key was seen before: its draft takes one more row
        apply List.map_congr_left
        intro k _
        by_cases h : k = key
        · subst h
          rw [if_pos rfl, under_append_of_eq hkey, draftOf_append_singleton]
        · have hne : rowKey s.pk row ≠ some k := by
            rw [hkey]
            exact fun e => h (Option.some.inj e).symm
          rw [if_neg h, under_append_of_ne hne]
      · next hnew =>
        rw [List.map_append]
        congr 1
        · apply List.map_congr_left
          intro k hk
          have hne : rowKey s.pk row ≠ some k := by
            rw [hkey]
            rintro e
            exact hnew (Option.some.inj e ▸ hk)
          rw [under_append_of_ne hne]
        · rw [List.map_singleton, under_append_of_eq hkey, under_eq_nil_of_notMem hnew]
          rfl

/-! ### The draft of one object -/

theorem fields_fill (s : Schema) (row : Row) (draft : Draft) :
    (fill row s draft).fields = copyColumns row s.columns draft.fields := by
  obtain ⟨pk, columns, array, sort, children⟩ := s
  rfl

theorem children_fill (s : Schema) (row : Row) (draft : Draft) :
    (fill row s draft).children = fillChildren row s.children draft.children := by
  obtain ⟨pk, columns, array, sort, children⟩ := s
  rfl

theorem fields_foldl_fill (s : Schema) (rows : List Row) (draft : Draft) :
    (rows.foldl (fun draft row => fill row s draft) draft).fields
      = rows.foldl (fun fields row => copyColumns row s.columns fields) draft.fields := by
  induction rows generalizing draft with
  | nil => rfl
  | cons row rows ih =>
    rw [List.foldl_cons, List.foldl_cons, ih, fields_fill]

theorem children_foldl_fill (s : Schema) (rows : List Row) (draft : Draft) :
    (rows.foldl (fun draft row => fill row s draft) draft).children
      = rows.foldl (fun drafts row => fillChildren row s.children drafts) draft.children := by
  induction rows generalizing draft with
  | nil => rfl
  | cons row rows ih =>
    rw [List.foldl_cons, List.foldl_cons, ih, children_fill]

/-- The rows reach the first child, and the other children independently of it. -/
theorem foldl_fillChildren (name : String) (child : Schema) (children : List (String × Schema))
    (rows : List Row) (drafts : List (List (String × Draft))) :
    (rows.foldl (fun drafts row => fillChildren row ((name, child) :: children) drafts)
        drafts).headD [] = rows.foldl child.absorb (drafts.headD [])
      ∧ (rows.foldl (fun drafts row => fillChildren row ((name, child) :: children) drafts)
        drafts).tail = rows.foldl (fun drafts row => fillChildren row children drafts)
          drafts.tail := by
  induction rows generalizing drafts with
  | nil => exact ⟨rfl, rfl⟩
  | cons row rows ih => exact ih _

/-! ### Grouping -/

/-- The members that a row gives to an object: its values for the mapped
columns, as far as it has them, under their new names. -/
def copies (columns : List (String × String)) (row : Row) : Members :=
  columns.filterMap fun c => (row.get? c.1).map fun value => (c.2, value)

/-- Objects in the order of the field to sort by, if there is one: from the last
one on, each is put in front of those that it is not greater than. -/
def ordered (sort : Option String) (objects : List Members) : List Members :=
  match sort with
  | none => objects
  | some field =>
    objects.insertionSort fun a b => compareValues (a.get? field) (b.get? field) ≠ .gt

mutual

/-- The objects of a level for the rows of one parent: one for each key, in the
order of the field to sort by, and otherwise in the order in which the keys are
first seen. -/
def grouped : Schema → List Row → List Json
  | ⟨pk, columns, _, sort, children⟩, rows =>
    (ordered sort ((keysOf (rowKey pk) rows).map fun k =>
      withChildren children (under (rowKey pk) k rows)
        (insertAll [] ((under (rowKey pk) k rows).flatMap (copies columns))))).map .obj

/-- Put the children that rows have into the members of an object: a list of
them, or the first one alone, if there is any. -/
def withChildren : List (String × Schema) → List Row → Members → Members
  | [], _, fields => fields
  | (name, child) :: children, rows, fields =>
    let objects := grouped child rows
    withChildren children rows
      (if child.array then fields.insert name (.arr objects)
      else
        match objects.head? with
        | none => fields
        | some first => fields.insert name first)

end

/-- The object that the rows of one group make. -/
def objectOf (s : Schema) (rows : List Row) : Json :=
  .obj (withChildren s.children rows (insertAll [] (rows.flatMap (copies s.columns))))

/-- The objects of a level in the order in which their keys are first seen. -/
def firstSeen (s : Schema) (rows : List Row) : List Json :=
  (keysOf (rowKey s.pk) rows).map fun k => s.objectOf (under (rowKey s.pk) k rows)

/-- Putting objects in their places one after the other is sorting them. -/
theorem map_obj_ordered (sort : Option String) (objects : List Members) :
    (ordered sort objects).map .obj = arrange sort (objects.map .obj) := by
  rcases sort with - | field
  · rfl
  · have hle : ∀ a ∈ objects, ∀ b ∈ objects,
        compareValues (a.get? field) (b.get? field) ≠ .gt ↔ mayPrecede field (.obj a) (.obj b) :=
      fun _ _ _ _ => Ordering.ne_gt_iff_isLE
    rw [ordered, List.map_insertionSort _ (fun a b => mayPrecede field a b) _ _ hle]
    exact (SortOrder.sortedBy_eq_insertionSort field _).symm

theorem grouped_eq (s : Schema) (rows : List Row) :
    s.grouped rows = arrange s.sort (s.firstSeen rows) := by
  obtain ⟨pk, columns, array, sort, children⟩ := s
  rw [grouped, map_obj_ordered, List.map_map]
  rfl

/-! ### Drafts and groups -/

theorem copyColumns_eq_insertAll (row : Row) (columns : List (String × String))
    (fields : Members) :
    copyColumns row columns fields = insertAll fields (copies columns row) := by
  induction columns generalizing fields with
  | nil => rfl
  | cons c columns ih =>
    obtain ⟨column, name⟩ := c
    rw [copyColumns, List.foldl_cons, ← copyColumns, ih]
    rcases h : row.get? column with - | value <;> simp [copies, insertAll, h]

theorem foldl_copyColumns (rows : List Row) (columns : List (String × String))
    (fields : Members) :
    rows.foldl (fun fields row => copyColumns row columns fields) fields
      = insertAll fields (rows.flatMap (copies columns)) := by
  induction rows generalizing fields with
  | nil => rfl
  | cons row rows ih =>
    rw [List.foldl_cons, ih, copyColumns_eq_insertAll, List.flatMap_cons,
      Members.insertAll_append]

mutual

/-- The finished objects of a level are the groups of its rows. -/
theorem finish_foldl_absorb : ∀ (s : Schema) (rows : List Row),
    finish s (rows.foldl s.absorb []) = grouped s rows
  | ⟨pk, columns, array, sort, children⟩, rows => by
    rw [foldl_absorb, finish, grouped, map_obj_ordered, List.map_map, List.map_map]
    congr 1
    apply List.map_congr_left
    intro k _
    have hfields := fields_foldl_fill ⟨pk, columns, array, sort, children⟩
      (under (rowKey pk) k rows) Draft.empty
    have hchildren := children_foldl_fill ⟨pk, columns, array, sort, children⟩
      (under (rowKey pk) k rows) Draft.empty
    rw [foldl_copyColumns] at hfields
    simp only [Function.comp_apply, draftOf, hfields, hchildren]
    exact congrArg Json.obj (attach_foldl_fillChildren children _ _)

theorem attach_foldl_fillChildren : ∀ (children : List (String × Schema)) (rows : List Row)
    (fields : Members),
    attach children (rows.foldl (fun drafts row => fillChildren row children drafts) []) fields
      = withChildren children rows fields
  | [], _, _ => by rw [attach, withChildren]
  | (name, child) :: children, rows, fields => by
    obtain ⟨hhead, htail⟩ := foldl_fillChildren name child children rows []
    rw [attach, withChildren, hhead, htail]
    show attach children (rows.foldl _ []) _ = _
    rw [attach_foldl_fillChildren children]
    dsimp only [List.headD_nil]
    rw [finish_foldl_absorb child rows]
    rcases grouped child rows with - | ⟨first, objects⟩ <;> rfl

end

/-! ### Nesting -/

/-- Rows are collected up to the first one without a key. -/
theorem collect_eq (s : Schema) (n : Nat) (drafts : List (String × Draft)) (rows : List Row) :
    collect s n drafts rows =
      match rows.findIdx? (lacksKey s.pk) with
      | some i => .error (.nullRoot (n + i) s.pk)
      | none => .ok (rows.foldl s.absorb drafts) := by
  induction rows generalizing n drafts with
  | nil => rfl
  | cons row rows ih =>
    rw [collect, List.findIdx?_cons]
    rcases hkey : rowKey s.pk row with - | key
    · rw [rowKey_eq_none_iff.mp hkey]
      rfl
    · have hlacks : lacksKey s.pk row = false := by
        rw [← Bool.not_eq_true, ← rowKey_eq_none_iff, hkey]
        exact Option.some_ne_none key
      have habsorb : s.absorb drafts row = Draft.change key (fill row s) drafts := by
        rw [absorb, hkey]
      rw [hlacks, List.foldl_cons, habsorb]
      dsimp only
      rw [ih]
      rcases rows.findIdx? (lacksKey s.pk) with - | i
      · rfl
      · simp [Nat.add_right_comm n 1, Nat.add_assoc]

/-- Sorting only changes the order of the objects. -/
theorem arrange_perm (sort : Option String) (objects : List Json) :
    (arrange sort objects).Perm objects := by
  rcases sort with - | field
  · exact .refl objects
  · exact List.mergeSort_perm objects _

theorem decompose_eq (s : Schema) (rows : List Row) :
    decompose s rows =
      match rows.findIdx? (lacksKey s.pk) with
      | some n => .error (.nullRoot n s.pk)
      | none => .ok (s.grouped rows) := by
  rw [decompose, collect_eq]
  rcases rows.findIdx? (lacksKey s.pk) with - | n
  · exact congrArg Except.ok (finish_foldl_absorb s rows)
  · simp only [Nat.zero_add]
    rfl

/-- Nesting names the first row without a root key; without such a row it
yields the groups of the rows, in which every object is made of the rows under
its own key alone.  The objects of a level come as their keys are first seen
when there is no field to sort by; when there is one, they come in its order,
and objects with alike values as their keys are first seen. -/
theorem decompose_eq_grouped (s : Schema) (rows : List Row) :
    decompose s rows =
        (match rows.findIdx? (lacksKey s.pk) with
        | some n => .error (.nullRoot n s.pk)
        | none => .ok (s.grouped rows))
      ∧ (s.grouped rows).Perm (s.firstSeen rows)
      ∧ match s.sort with
        | none => s.grouped rows = s.firstSeen rows
        | some field =>
          (s.grouped rows).Pairwise
              (fun a b => compareValues (fieldOf field a) (fieldOf field b) ≠ .gt)
            ∧ ∀ a, (s.grouped rows).filter (alike field a)
              = (s.firstSeen rows).filter (alike field a) := by
  refine ⟨decompose_eq s rows, ?_, ?_⟩
  · rw [grouped_eq]
    exact arrange_perm s.sort _
  · rw [grouped_eq]
    rcases s.sort with - | field
    · rfl
    · exact ⟨SortOrder.pairwise_sortedBy field _, SortOrder.filter_alike_sortedBy field _⟩

end Schema

end CriteriaSql
