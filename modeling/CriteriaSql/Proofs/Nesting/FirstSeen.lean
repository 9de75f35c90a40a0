/-
CriteriaSql/Proofs/Nesting/FirstSeen.lean

Items in the order in which they are first seen.

Items have keys: `keysOf` lists those of a list, each where it is first seen,
and `under` takes the items under one of them.  Items that come in blocks, each
under a key of its own, are put into their blocks again (`keysOf_flatMap`,
`under_flatMap`).

A product of lists repeats every item many times.  What is read off the items
that are seen first does not notice: two lists are the same to it when, for
every property, their first items with that property are the same
(`SameFirsts`).  The relation is kept by maps and filters, the sides of a
product are in it with the lists that they come from
(`sameFirsts_flatMap_const`, `sameFirsts_flatMap_map_const`), and without their
repetitions two lists in it are equal (`SameFirsts.eraseDups_eq`).
-/
import Mathlib.Data.List.Basic

namespace CriteriaSql

variable {α β : Type}

/-! ### Lists without their repetitions -/

theorem nodup_eraseDups : ∀ ks : List String, ks.eraseDups.Nodup
  | [] => List.nodup_nil
  | k :: ks => by
    rw [List.eraseDups_cons, List.nodup_cons]
    refine ⟨?_, nodup_eraseDups (ks.filter fun k' => !k' == k)⟩
    simp [List.mem_eraseDups]
termination_by ks => ks.length
decreasing_by exact Nat.lt_succ_of_le (List.length_filter_le _ _)

theorem eraseDups_of_nodup : ∀ {ks : List String}, ks.Nodup → ks.eraseDups = ks
  | [], _ => rfl
  | k :: ks, h => by
    obtain ⟨hk, hks⟩ := List.nodup_cons.mp h
    have hothers : (ks.filter fun k' => !k' == k) = ks := by
      rw [List.filter_eq_self]
      intro k' hk'
      have : k' ≠ k := fun e => hk (e ▸ hk')
      simpa using this
    rw [List.eraseDups_cons, hothers, eraseDups_of_nodup hks]

/-! ### Lists with the same first items -/

/-- For every property, the first items that have it are the same. -/
def SameFirsts (l l' : List α) : Prop :=
  ∀ p : α → Bool, l.find? p = l'.find? p

namespace SameFirsts

variable {l l' l'' : List α}

theorem refl (l : List α) : SameFirsts l l := fun _ => rfl

theorem trans (h : SameFirsts l l') (h' : SameFirsts l' l'') : SameFirsts l l'' := fun p =>
  (h p).trans (h' p)

/-! ### What keeps the relation -/

theorem map (h : SameFirsts l l') (f : α → β) : SameFirsts (l.map f) (l'.map f) := by
  intro p
  rw [List.find?_map, List.find?_map, h]

theorem filter (h : SameFirsts l l') (q : α → Bool) : SameFirsts (l.filter q) (l'.filter q) := by
  intro p
  rw [List.find?_filter, List.find?_filter, h]

theorem filterMap (h : SameFirsts l l') (f : α → Option β) :
    SameFirsts (l.filterMap f) (l'.filterMap f) := by
  intro p
  rw [List.find?_filterMap, List.find?_filterMap, h]

theorem flatMap {f g : α → List β} (h : ∀ a ∈ l, SameFirsts (f a) (g a)) :
    SameFirsts (l.flatMap f) (l.flatMap g) := by
  intro p
  rw [List.find?_flatMap, List.find?_flatMap]
  induction l with
  | nil => rfl
  | cons a l ih =>
    rw [List.findSome?_cons, List.findSome?_cons, h a List.mem_cons_self,
      ih fun b hb => h b (List.mem_cons_of_mem a hb)]

/-! ### What the relation says -/

theorem mem_iff (h : SameFirsts l l') (a : α) : a ∈ l ↔ a ∈ l' := by
  classical
  have hfind := congrArg Option.isSome (h fun b => decide (b = a))
  rw [Bool.eq_iff_iff, List.find?_isSome, List.find?_isSome] at hfind
  simpa using hfind

theorem eq_nil_iff (h : SameFirsts l l') : l = [] ↔ l' = [] := by
  rw [List.eq_nil_iff_forall_not_mem, List.eq_nil_iff_forall_not_mem]
  exact forall_congr' fun a => not_congr (h.mem_iff a)

/-- Both lists begin with the same item, and without it they are still the
same. -/
theorem eraseDups_eq [BEq α] [LawfulBEq α] :
    ∀ {l l' : List α}, SameFirsts l l' → l.eraseDups = l'.eraseDups
  | [], l', h => by rw [h.eq_nil_iff.mp rfl]
  | a :: l, [], h => absurd (h.eq_nil_iff.mpr rfl) (List.cons_ne_nil a l)
  | a :: l, a' :: l', h => by
    have hhead : a = a' := Option.some.inj (h fun _ => true)
    subst hhead
    have htail : SameFirsts (l.filter fun b => !b == a) (l'.filter fun b => !b == a) := by
      have := h.filter fun b => !b == a
      simpa using this
    rw [List.eraseDups_cons, List.eraseDups_cons, htail.eraseDups_eq]
termination_by l => l.length
decreasing_by exact Nat.lt_succ_of_le (List.length_filter_le _ _)

end SameFirsts

/-! ### Products -/

/-- The second side of a product. -/
theorem sameFirsts_flatMap_const {l : List α} (hl : l ≠ []) (m : List β) :
    SameFirsts (l.flatMap fun _ => m) m := by
  intro p
  obtain ⟨a, l, rfl⟩ := List.exists_cons_of_ne_nil hl
  rw [List.find?_flatMap, List.findSome?_cons]
  rcases m.find? p with - | b
  · rw [List.findSome?_eq_none_iff]
    exact fun _ _ => rfl
  · rfl

/-- The first side of a product. -/
theorem sameFirsts_flatMap_map_const {m : List β} (hm : m ≠ []) (l : List α) :
    SameFirsts (l.flatMap fun a => m.map fun _ => a) l := by
  have h : ∀ a ∈ l, SameFirsts (m.map fun _ => a) [a] := by
    intro a _
    rw [List.map_eq_flatMap]
    exact sameFirsts_flatMap_const hm [a]
  simpa only [List.flatMap_singleton'] using SameFirsts.flatMap h

/-! ### Items under keys -/

section Keys

variable (key : α → Option String)

/-- The keys of items, in the order in which they are first seen. -/
def keysOf (items : List α) : List String :=
  (items.filterMap key).eraseDups

/-- The items under a key, in order. -/
def under (k : String) (items : List α) : List α :=
  items.filter fun a => key a = some k

theorem nodup_keysOf (items : List α) : (keysOf key items).Nodup :=
  nodup_eraseDups _

variable {key} {a : α}

theorem keysOf_append_of_none (ha : key a = none) (items : List α) :
    keysOf key (items ++ [a]) = keysOf key items := by
  simp [keysOf, ha]

/-- A new key goes to the end. -/
theorem keysOf_append_of_some {k : String} (ha : key a = some k) (items : List α) :
    keysOf key (items ++ [a])
      = if k ∈ keysOf key items then keysOf key items else keysOf key items ++ [k] := by
  have hlast : (items ++ [a]).filterMap key = items.filterMap key ++ [k] := by
    simp [ha]
  rw [keysOf, keysOf, hlast, List.eraseDups_append]
  generalize items.filterMap key = ks
  by_cases h : k ∈ ks
  · simp [List.removeAll, h]
  · simp [List.removeAll, h, List.eraseDups_cons]

theorem under_append (k : String) (items items' : List α) :
    under key k (items ++ items') = under key k items ++ under key k items' :=
  List.filter_append ..

theorem under_eq_self {k : String} {items : List α} (h : ∀ a ∈ items, key a = some k) :
    under key k items = items := by
  rw [under, List.filter_eq_self]
  simpa using h

theorem under_eq_nil {k : String} {items : List α} (h : ∀ a ∈ items, key a ≠ some k) :
    under key k items = [] := by
  rw [under, List.filter_eq_nil_iff]
  simpa using h

theorem under_append_of_eq {k : String} (ha : key a = some k) (items : List α) :
    under key k (items ++ [a]) = under key k items ++ [a] := by
  have hlast : under key k [a] = [a] := under_eq_self (by simpa using ha)
  rw [under_append, hlast]

theorem under_append_of_ne {k : String} (ha : key a ≠ some k) (items : List α) :
    under key k (items ++ [a]) = under key k items := by
  have hlast : under key k [a] = [] := under_eq_nil (by simpa using ha)
  rw [under_append, hlast, List.append_nil]

/-- There are no items under a key that is not seen. -/
theorem under_eq_nil_of_notMem {k : String} {items : List α} (hk : k ∉ keysOf key items) :
    under key k items = [] := by
  apply under_eq_nil
  intro a ha hak
  exact hk (List.mem_eraseDups.mpr (List.mem_filterMap.mpr ⟨a, ha, hak⟩))

/-! ### Blocks of items -/

variable {ι : Type} {keyOf : ι → String} {block : ι → List α} {is : List ι}

/-- Items that come in blocks, each of which has a key of its own, have the
keys of the blocks. -/
theorem keysOf_flatMap (hkeys : ∀ i ∈ is, ∀ a ∈ block i, key a = some (keyOf i))
    (hne : ∀ i ∈ is, block i ≠ []) (hnodup : (is.map keyOf).Nodup) :
    keysOf key (is.flatMap block) = is.map keyOf := by
  have hblock : ∀ i ∈ is, SameFirsts ((block i).filterMap key) [keyOf i] := by
    intro i hi
    have hconst : (block i).filterMap key = (block i).flatMap fun _ => [keyOf i] := by
      rw [← List.map_eq_flatMap, ← List.filterMap_eq_map]
      exact List.filterMap_congr (hkeys i hi)
    rw [hconst]
    exact sameFirsts_flatMap_const (hne i hi) _
  rw [keysOf, List.filterMap_flatMap, (SameFirsts.flatMap hblock).eraseDups_eq,
    ← List.map_eq_flatMap, eraseDups_of_nodup hnodup]

/-- The items under the key of a block are the block. -/
theorem under_flatMap (hkeys : ∀ i ∈ is, ∀ a ∈ block i, key a = some (keyOf i))
    (hnodup : (is.map keyOf).Nodup) {i : ι} (hi : i ∈ is) :
    under key (keyOf i) (is.flatMap block) = block i := by
  induction is with
  | nil => cases hi
  | cons j is ih =>
    obtain ⟨hj, hnodup⟩ := List.nodup_cons.mp hnodup
    have hblock := hkeys j List.mem_cons_self
    have hrest : ∀ i ∈ is, ∀ a ∈ block i, key a = some (keyOf i) := fun i hi =>
      hkeys i (List.mem_cons_of_mem j hi)
    rw [List.flatMap_cons, under_append]
    rcases List.mem_cons.mp hi with rfl | hi
    · -- its own block, and none of those that follow
      have hothers : ∀ a ∈ is.flatMap block, key a ≠ some (keyOf i) := by
        intro a ha hkey
        obtain ⟨i', hi', ha⟩ := List.mem_flatMap.mp ha
        rw [hrest i' hi' a ha, Option.some.injEq] at hkey
        exact hj (hkey ▸ List.mem_map_of_mem hi')
      rw [under_eq_self hblock, under_eq_nil hothers, List.append_nil]
    · have hother : ∀ a ∈ block j, key a ≠ some (keyOf i) := by
        intro a ha hkey
        rw [hblock a ha, Option.some.injEq] at hkey
        exact hj (hkey ▸ List.mem_map_of_mem hi)
      rw [under_eq_nil hother, List.nil_append, ih hrest hnodup hi]

/-! ### Items seen through a view -/

variable {view : α → α} {l l' : List α}

/-- A view that shows the keys, and lists the same items up to repetitions,
shows the same keys. -/
theorem SameFirsts.keysOf_eq (h : SameFirsts (l.map view) l')
    (hview : ∀ a, key (view a) = key a) : keysOf key l = keysOf key l' := by
  have hkeys : (l.map view).filterMap key = l.filterMap key := by
    rw [List.filterMap_map]
    exact List.filterMap_congr fun a _ => hview a
  rw [keysOf, ← hkeys, (h.filterMap key).eraseDups_eq, keysOf]

/-- Such a view shows the same items under every key. -/
theorem SameFirsts.under (h : SameFirsts (l.map view) l') (hview : ∀ a, key (view a) = key a)
    (k : String) : SameFirsts ((under key k l).map view) (CriteriaSql.under key k l') := by
  have hunder : (CriteriaSql.under key k l).map view = CriteriaSql.under key k (l.map view) := by
    rw [CriteriaSql.under, CriteriaSql.under, List.filter_map]
    congr 1
    apply List.filter_congr
    intro a _
    rw [Function.comp_apply, hview]
  rw [hunder]
  exact h.filter _

end Keys

end CriteriaSql
