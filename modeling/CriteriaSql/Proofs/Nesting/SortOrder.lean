/-
CriteriaSql/Proofs/Nesting/SortOrder.lean

The order of a sorted list of objects.

Two objects are compared by the values of a field, and these by their places in
a linear order (`compareValues_isLE_iff`), so sorting is stable, and the same as
putting one object after the other in its place (`sortedBy_eq_insertionSort`).
The order that a field should have takes integers by their values (`AtMost`);
the comparison takes the doubles that are nearest to them.  The two orders agree
on all values but integers with the same nearest double, which the comparison
cannot tell apart (`compareValues_isLE_iff_atMost`).

Main result: sorting keeps the objects, and keeps those in order that are so
already; the sorted list is in order exactly when no two integers with the same
nearest double come in the wrong order (`stablySorted_sortedBy`).
-/
import CriteriaSql.Nesting.SortOrder
import CriteriaSql.Proofs.Number.WholeOrder
import Mathlib.Data.List.Sort
import Mathlib.Data.Prod.Lex
import Mathlib.Data.String.Basic

namespace CriteriaSql

open Number (Double)

namespace SortOrder

/-! ### The linear order behind the comparison -/

/-- The place of a value among those of its kind: the number, or the text. -/
def placeInKind : Option Json → Int ×ₗ String
  | some (.bool b) => toLex (b.toNat, "")
  | some (.num n) => toLex (n.toDouble.orderKey, "")
  | some (.str s) => toLex (0, s)
  | _ => toLex (0, "")

/-- A place in a linear order for every value of a field: by kind, and then by
the place in the kind. -/
def sortKey (v : Option Json) : Nat ×ₗ Int ×ₗ String :=
  toLex (rank v, placeInKind v)

theorem sortKey_le_iff {a b : Option Json} :
    sortKey a ≤ sortKey b ↔ rank a < rank b ∨ rank a = rank b ∧ placeInKind a ≤ placeInKind b :=
  Prod.Lex.toLex_le_toLex

theorem compareValues_isLE_iff (a b : Option Json) :
    (compareValues a b).isLE ↔ sortKey a ≤ sortKey b := by
  rw [sortKey_le_iff]
  fun_cases compareValues a b with
  | case1 a b => cases a <;> cases b <;> decide
  | case2 a b =>
    rw [Double.order, Std.LawfulBCmp.isLE_iff_le, le_iff_lt_or_eq]
    simp only [rank, placeInKind, Prod.Lex.toLex_le_toLex]
    simp only [lt_irrefl, false_or, true_and, le_refl, and_true]
  | case3 a b =>
    rw [Std.LawfulBCmp.isLE_iff_le]
    simp [rank, placeInKind, Prod.Lex.toLex_le_toLex]
  | case4 a b hbool hnum hstr =>
    -- values of one kind are alike, as they are not both of a kind with an order of its own
    have hplace : rank a = rank b → placeInKind a = placeInKind b := by
      rcases a with - | (- | _ | _ | _ | _ | _) <;> rcases b with - | (- | _ | _ | _ | _ | _) <;>
        simp [rank, placeInKind]
      · exact (hbool _ _ rfl rfl).elim
      · exact (hnum _ _ rfl rfl).elim
      · exact (hstr _ _ rfl rfl).elim
    rw [Std.LawfulBCmp.isLE_iff_le, Nat.le_iff_lt_or_eq]
    exact or_congr_right ⟨fun h => ⟨h, (hplace h).le⟩, And.left⟩

theorem mayPrecede_iff {field : String} {a b : Json} :
    mayPrecede field a b ↔ sortKey (fieldOf field a) ≤ sortKey (fieldOf field b) :=
  compareValues_isLE_iff _ _

theorem mayPrecede_trans (field : String) (a b c : Json) (hab : mayPrecede field a b)
    (hbc : mayPrecede field b c) : mayPrecede field a c :=
  mayPrecede_iff.mpr ((mayPrecede_iff.mp hab).trans (mayPrecede_iff.mp hbc))

theorem mayPrecede_total (field : String) (a b : Json) :
    mayPrecede field a b || mayPrecede field b a := by
  rw [Bool.or_eq_true, mayPrecede_iff, mayPrecede_iff]
  exact le_total _ _

/-- The other way round the comparison has the other outcome. -/
theorem compareValues_swap (a b : Option Json) :
    compareValues a b = (compareValues b a).swap := by
  fun_cases compareValues a b with
  | case1 a b => exact Std.OrientedCmp.eq_swap
  | case2 a b =>
    show compare _ _ = (compare _ _).swap
    exact Std.OrientedCmp.eq_swap
  | case3 a b => exact Std.OrientedCmp.eq_swap
  | case4 a b hbool hnum hstr =>
    -- values of two kinds, or of one without an order, are so the other way round too
    have hback : compareValues b a = compare (rank b) (rank a) := by
      unfold compareValues
      split
      · exact (hbool _ _ rfl rfl).elim
      · exact (hnum _ _ rfl rfl).elim
      · exact (hstr _ _ rfl rfl).elim
      · rfl
    rw [hback]
    exact Std.OrientedCmp.eq_swap

/-! ### The order of a field -/

/-- Whether a number is at most another: integers by their values, and other
numbers by the doubles that are nearest to them. -/
def NumberAtMost : JsonNumber → JsonNumber → Prop
  | .int m, .int n => m ≤ n
  | m, n => m.toDouble.orderKey ≤ n.toDouble.orderKey

/-- Whether a value of a field is at most another: values of one kind by their
values, texts by their code points, and values of two kinds by the kinds. -/
def AtMost : Option Json → Option Json → Prop
  | some (.bool a), some (.bool b) => a ≤ b
  | some (.num m), some (.num n) => NumberAtMost m n
  | some (.str s), some (.str t) => s.toList.map Char.toNat ≤ t.toList.map Char.toNat
  | a, b => rank a ≤ rank b

/-- Whether two integers are in the wrong order, and have the same nearest
double. -/
def Confused : Option Json → Option Json → Prop
  | some (.num (.int m)), some (.num (.int n)) => n < m ∧ Double.ofInt m = Double.ofInt n
  | _, _ => False

/-- Whether an object may stand before another by the value of a field. -/
def InOrder (field : String) (a b : Json) : Prop :=
  AtMost (fieldOf field a) (fieldOf field b)

/-- Texts are compared by their code points. -/
theorem codePoints_le_iff {s t : String} :
    s.toList.map Char.toNat ≤ t.toList.map Char.toNat ↔ s ≤ t := by
  have hmono : ∀ c d : Char, c < d → c.toNat < d.toNat := fun _ _ h => h
  rw [String.le_iff_toList_le]
  constructor
  · intro h
    by_contra hlt
    exact not_lt_of_ge h (List.map_lt hmono (not_le.mp hlt))
  · intro h
    rcases le_iff_lt_or_eq.mp h with hlt | heq
    · exact (List.map_lt hmono hlt).le
    · rw [heq]

/-- Values are compared by the order of the field, except that integers with
the same nearest double are all alike. -/
theorem compareValues_isLE_iff_atMost (a b : Option Json) :
    (compareValues a b).isLE ↔ AtMost a b ∨ Confused a b := by
  have halone : ∀ p : Prop, p ↔ p ∨ False := fun p => (or_iff_left not_false).symm
  fun_cases compareValues a b with
  | case1 a b =>
    rw [Std.LawfulBCmp.isLE_iff_le]
    exact halone _
  | case2 m n =>
    rw [Double.order, Std.LawfulBCmp.isLE_iff_le]
    rcases m with m | m <;> rcases n with n | n
    · exact Double.orderKey_ofInt_le_iff
    · exact halone _
    · exact halone _
    · exact halone _
  | case3 s t =>
    rw [Std.LawfulBCmp.isLE_iff_le, ← codePoints_le_iff]
    exact halone _
  | case4 a b hbool hnum hstr =>
    have hrank : AtMost a b ↔ rank a ≤ rank b := by
      unfold AtMost
      split
      · exact (hbool _ _ rfl rfl).elim
      · exact (hnum _ _ rfl rfl).elim
      · exact (hstr _ _ rfl rfl).elim
      · exact .rfl
    have hconfused : ¬Confused a b := by
      unfold Confused
      split
      · exact (hnum _ _ rfl rfl).elim
      · exact not_false
    rw [Std.LawfulBCmp.isLE_iff_le, hrank, or_iff_left hconfused]

theorem mayPrecede_iff_inOrder {field : String} {a b : Json} :
    mayPrecede field a b ↔ InOrder field a b ∨ Confused (fieldOf field a) (fieldOf field b) :=
  compareValues_isLE_iff_atMost _ _

theorem AtMost.not_confused {a b : Option Json} (h : AtMost a b) : ¬Confused a b := by
  unfold Confused
  split
  · next m n =>
    have hle : m ≤ n := h
    rintro ⟨hlt, -⟩
    omega
  · exact not_false

/-- The other way round they are in order. -/
theorem Confused.atMost {a b : Option Json} (h : Confused a b) : AtMost b a := by
  unfold Confused at h
  split at h
  · exact h.1.le
  · exact h.elim

/-! ### Sorting -/

/-- An element is put behind those that it may not precede. -/
theorem orderedInsert_append {α : Type} {r : α → α → Prop} [DecidableRel r] {a : α}
    {before after : List α} (hbefore : ∀ b ∈ before, ¬r a b) (hafter : ∀ b ∈ after, r a b) :
    List.orderedInsert r a (before ++ after) = before ++ a :: after := by
  induction before with
  | nil =>
    rcases after with - | ⟨b, after⟩
    · rfl
    · exact List.orderedInsert_cons_of_le r after (hafter b List.mem_cons_self)
  | cons b before ih =>
    obtain ⟨hb, hbefore⟩ := List.forall_mem_cons.mp hbefore
    rw [List.cons_append, List.orderedInsert_of_not_le r _ hb, ih hbefore, List.cons_append]

section Sorting

variable {field : String} {objects : List Json}

theorem pairwise_mayPrecede_sortedBy :
    (sortedBy field objects).Pairwise fun a b => mayPrecede field a b :=
  List.pairwise_mergeSort (mayPrecede_trans field) (mayPrecede_total field) objects

/-- Sorting puts the objects in their places one after the other. -/
theorem sortedBy_eq_insertionSort (field : String) (objects : List Json) :
    sortedBy field objects = objects.insertionSort fun a b => mayPrecede field a b := by
  induction objects with
  | nil => exact List.mergeSort_nil
  | cons a objects ih =>
    obtain ⟨before, after, hcons, hrest, hbefore⟩ :=
      List.mergeSort_cons (mayPrecede_trans field) (mayPrecede_total field) a objects
    have hsorted : (sortedBy field (a :: objects)).Pairwise fun a b => mayPrecede field a b :=
      pairwise_mayPrecede_sortedBy
    rw [sortedBy, hcons] at hsorted
    rw [List.insertionSort_cons, ← ih, sortedBy, sortedBy, hcons, hrest, orderedInsert_append]
    · intro b hb
      simpa using hbefore b hb
    · exact (List.pairwise_cons.mp (List.pairwise_append.mp hsorted).2.1).1

theorem sublist_sortedBy {part : List Json} (hpart : part.Sublist objects)
    (hle : part.Pairwise fun a b => mayPrecede field a b) :
    part.Sublist (sortedBy field objects) :=
  List.sublist_mergeSort (mayPrecede_trans field) (mayPrecede_total field) hle hpart

/-- Objects of which each may stand before the other. -/
def tied (field : String) (a b : Json) : Bool :=
  mayPrecede field a b && mayPrecede field b a

/-- Sorting leaves the objects alone that are tied with one of them. -/
theorem filter_tied_sortedBy (a : Json) :
    (sortedBy field objects).filter (tied field a) = objects.filter (tied field a) := by
  have hle : (objects.filter (tied field a)).Pairwise fun b c => mayPrecede field b c := by
    apply List.pairwise_of_forall_mem_list
    intro b hb c hc
    obtain ⟨-, hba⟩ := Bool.and_eq_true_iff.mp (List.mem_filter.mp hb).2
    obtain ⟨hac, -⟩ := Bool.and_eq_true_iff.mp (List.mem_filter.mp hc).2
    exact mayPrecede_trans field b a c hba hac
  have hsub := (sublist_sortedBy List.filter_sublist hle).filter (tied field a)
  rw [List.filter_filter] at hsub
  simp only [Bool.and_self] at hsub
  have hlength := ((List.mergeSort_perm objects (mayPrecede field)).filter (tied field a)).length_eq
  exact (hsub.eq_of_length hlength.symm).symm

/-- The values that two objects have in a field are alike. -/
def alike (field : String) (x y : Json) : Bool :=
  compareValues (fieldOf field x) (fieldOf field y) = .eq

/-- Objects are tied when their values are alike. -/
theorem tied_eq_alike (field : String) : tied field = alike field := by
  funext x y
  rw [Bool.eq_iff_iff, tied, alike, Bool.and_eq_true, decide_eq_true_iff]
  rw [mayPrecede, mayPrecede, compareValues_swap (fieldOf field y)]
  constructor
  · rintro ⟨hle, hge⟩
    exact Ordering.eq_eq_of_isLE_of_isLE_swap hle hge
  · intro h
    rw [h]
    exact ⟨rfl, rfl⟩

/-- Sorting leaves objects with alike values in the order in which they come. -/
theorem filter_alike_sortedBy (field : String) (objects : List Json) (x : Json) :
    (sortedBy field objects).filter (alike field x) = objects.filter (alike field x) := by
  rw [← tied_eq_alike]
  exact filter_tied_sortedBy x

theorem pairwise_sortedBy (field : String) (objects : List Json) :
    (sortedBy field objects).Pairwise fun x y =>
      compareValues (fieldOf field x) (fieldOf field y) ≠ .gt :=
  pairwise_mayPrecede_sortedBy.imp fun h => Ordering.ne_gt_iff_isLE.mpr h

/-- A sorted list is in order, but for the integers that have the same nearest
double: these stay as they come. -/
theorem pairwise_inOrder_sortedBy_iff :
    (sortedBy field objects).Pairwise (InOrder field)
      ↔ ∀ a b, [a, b].Sublist objects → ¬Confused (fieldOf field a) (fieldOf field b) := by
  constructor
  · intro hpairwise a b hab hconfused
    have hle : mayPrecede field a b := mayPrecede_iff_inOrder.mpr (.inr hconfused)
    have hpair := sublist_sortedBy hab (List.pairwise_pair.mpr hle)
    exact (List.pairwise_iff_forall_sublist.mp hpairwise hpair).not_confused hconfused
  · intro hnone
    refine List.pairwise_iff_forall_sublist.mpr fun {a b} hab => ?_
    have hle := List.pairwise_iff_forall_sublist.mp pairwise_mayPrecede_sortedBy hab
    rcases mayPrecede_iff_inOrder.mp hle with horder | hconfused
    · exact horder
    · -- the two are tied, so they stand in this order in the list that was sorted
      have hback : mayPrecede field b a := mayPrecede_iff_inOrder.mpr (.inl hconfused.atMost)
      have hself : mayPrecede field a a := mayPrecede_trans field a b a hle hback
      have hfilter : [a, b].filter (tied field a) = [a, b] := by
        simp [tied, hle, hback, hself]
      have hpair := hab.filter (tied field a)
      rw [hfilter, filter_tied_sortedBy] at hpair
      exact absurd hconfused (hnone a b (hpair.trans List.filter_sublist))

/-- What a sorted list is to the list that was sorted. -/
structure StablySorted (field : String) (first sorted : List Json) : Prop where
  /-- It has the same objects. -/
  perm : sorted.Perm first
  /-- Objects that are in order already, such as those with one value, stay in
  order. -/
  stable : ∀ part : List Json, part.Sublist first → part.Pairwise (InOrder field) →
    part.Sublist sorted
  /-- It is in order exactly when no two integers that have the same nearest
  double come in the wrong order. -/
  inOrder_iff : sorted.Pairwise (InOrder field)
    ↔ ∀ a b, [a, b].Sublist first → ¬Confused (fieldOf field a) (fieldOf field b)
  /-- In particular it is in order when no integer is beyond `2 ^ 53`. -/
  inOrder_of_natAbs_le : (∀ a ∈ first, ∀ n, fieldOf field a = some (.num (.int n)) →
    n.natAbs ≤ pow2 53) → sorted.Pairwise (InOrder field)

theorem not_confused_of_natAbs_le {a b : Option Json}
    (ha : ∀ n, a = some (.num (.int n)) → n.natAbs ≤ pow2 53)
    (hb : ∀ n, b = some (.num (.int n)) → n.natAbs ≤ pow2 53) : ¬Confused a b := by
  unfold Confused
  split
  · next m n =>
    rintro ⟨hlt, heq⟩
    have := Double.ofInt_injective (ha m rfl) (hb n rfl) heq
    omega
  · exact not_false

theorem stablySorted_sortedBy (field : String) (objects : List Json) :
    StablySorted field objects (sortedBy field objects) where
  perm := List.mergeSort_perm objects _
  stable _ hpart horder :=
    sublist_sortedBy hpart (horder.imp fun h => mayPrecede_iff_inOrder.mpr (.inl h))
  inOrder_iff := pairwise_inOrder_sortedBy_iff
  inOrder_of_natAbs_le hsmall := by
    refine pairwise_inOrder_sortedBy_iff.mpr fun a b hab => ?_
    exact not_confused_of_natAbs_le (hsmall a (hab.subset (by simp)))
      (hsmall b (hab.subset (by simp)))

end Sorting

end SortOrder

end CriteriaSql
