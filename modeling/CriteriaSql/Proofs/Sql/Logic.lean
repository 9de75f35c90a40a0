/-
CriteriaSql/Proofs/Sql/Logic.lean

Boolean SQL text, read as a formula.

The reading follows the precedence of SQL.  Parentheses come first; outside of
them the text is cut at every OR, and what lies between at every AND but the
one that belongs to a BETWEEN before it.  A piece that is one pair of
parentheses stands for what is inside, the words TRUE and FALSE for themselves,
and every other piece is an atom, which is kept as it is written.

Truth is three-valued, and an assignment gives a truth value to each atom by its
place in the text.

Main results: texts that are joined with AND or OR, each of them closed, are
read as the conjunction or disjunction of what they are read as on their own
(`formulaOf_and`, `formulaOf_or`).
-/
import CriteriaSql.Proofs.Sql.Parentheses
import Mathlib.Data.List.Basic

namespace CriteriaSql.Sql

/-! ### Truth values -/

/-- The truth values of SQL. -/
inductive Truth where
  | false
  | unknown
  | true
deriving DecidableEq, Repr

namespace Truth

/-- The truth value of a constant. -/
def ofBool : Bool → Truth
  | .false => false
  | .true => true

def and : Truth → Truth → Truth
  | true, t => t
  | false, _ => false
  | unknown, false => false
  | unknown, _ => unknown

def or : Truth → Truth → Truth
  | false, t => t
  | true, _ => true
  | unknown, true => true
  | unknown, _ => unknown

@[simp] theorem and_true (t : Truth) : t.and true = t := by
  cases t <;> rfl

@[simp] theorem or_false (t : Truth) : t.or false = t := by
  cases t <;> rfl

end Truth

/-! ### Formulas -/

/-- A formula; an atom is the forest of its text. -/
inductive Formula where
  | constant (b : Bool)
  | atom (text : List Nest)
  | all (fs : List Formula)
  | any (fs : List Formula)

namespace Formula

mutual

/-- The atoms of a formula, from left to right. -/
def atoms : Formula → List (List Nest)
  | .constant _ => []
  | .atom text => [text]
  | .all fs => listAtoms fs
  | .any fs => listAtoms fs

/-- The atoms of formulas. -/
def listAtoms : List Formula → List (List Nest)
  | [] => []
  | f :: fs => f.atoms ++ listAtoms fs

end

mutual

/-- The value of a formula whose first atom is the one with the number `n`. -/
def value (v : Nat → Truth) (n : Nat) : Formula → Truth
  | .constant b => .ofBool b
  | .atom _ => v n
  | .all fs => allValue v n fs
  | .any fs => anyValue v n fs

/-- The value of a conjunction. -/
def allValue (v : Nat → Truth) (n : Nat) : List Formula → Truth
  | [] => .true
  | f :: fs => (f.value v n).and (allValue v (n + f.atoms.length) fs)

/-- The value of a disjunction. -/
def anyValue (v : Nat → Truth) (n : Nat) : List Formula → Truth
  | [] => .false
  | f :: fs => (f.value v n).or (anyValue v (n + f.atoms.length) fs)

end

theorem listAtoms_eq_flatMap (fs : List Formula) : listAtoms fs = fs.flatMap atoms := by
  induction fs with
  | nil => rfl
  | cons f fs ih => rw [listAtoms, ih, List.flatMap_cons]

/-- The same atoms in the same order, and the same value under every
assignment. -/
structure Equiv (f g : Formula) : Prop where
  atoms_eq : f.atoms = g.atoms
  value_eq : ∀ v n, f.value v n = g.value v n

theorem Equiv.refl (f : Formula) : Equiv f f :=
  ⟨rfl, fun _ _ => rfl⟩

theorem Equiv.trans {f g k : Formula} (h : Equiv f g) (h' : Equiv g k) : Equiv f k :=
  ⟨h.atoms_eq.trans h'.atoms_eq, fun v n => (h.value_eq v n).trans (h'.value_eq v n)⟩

/-- A conjunction or disjunction of one formula is that formula. -/
theorem equiv_all_singleton (f : Formula) : Equiv (.all [f]) f := by
  refine ⟨List.append_nil f.atoms, ?_⟩
  intro v n
  show (f.value v n).and .true = _
  exact Truth.and_true _

theorem equiv_any_singleton (f : Formula) : Equiv (.any [f]) f := by
  refine ⟨List.append_nil f.atoms, ?_⟩
  intro v n
  show (f.value v n).or .false = _
  exact Truth.or_false _

section Congruence

variable {α : Type} {F G : α → Formula} {xs : List α} (h : ∀ x ∈ xs, Equiv (F x) (G x))
include h

theorem listAtoms_congr : listAtoms (xs.map F) = listAtoms (xs.map G) := by
  rw [listAtoms_eq_flatMap, listAtoms_eq_flatMap, List.flatMap_map, List.flatMap_map]
  apply List.flatMap_congr
  intro x hx
  exact (h x hx).atoms_eq

/-- Members of a conjunction may be replaced by equivalent ones. -/
theorem equiv_all : Equiv (.all (xs.map F)) (.all (xs.map G)) := by
  refine ⟨listAtoms_congr h, ?_⟩
  intro v n
  show allValue v n (xs.map F) = allValue v n (xs.map G)
  induction xs generalizing n with
  | nil => rfl
  | cons x xs ih =>
    have hx := h x List.mem_cons_self
    have hxs := ih fun y hy => h y (List.mem_cons_of_mem x hy)
    -- the numbers of the atoms that follow depend on the atoms before only
    rw [List.map_cons, List.map_cons, allValue, allValue, hx.value_eq, hx.atoms_eq, hxs]

/-- Members of a disjunction may be replaced by equivalent ones. -/
theorem equiv_any : Equiv (.any (xs.map F)) (.any (xs.map G)) := by
  refine ⟨listAtoms_congr h, ?_⟩
  intro v n
  show anyValue v n (xs.map F) = anyValue v n (xs.map G)
  induction xs generalizing n with
  | nil => rfl
  | cons x xs ih =>
    have hx := h x List.mem_cons_self
    have hxs := ih fun y hy => h y (List.mem_cons_of_mem x hy)
    -- as in a conjunction
    rw [List.map_cons, List.map_cons, anyValue, anyValue, hx.value_eq, hx.atoms_eq, hxs]

end Congruence

end Formula

/-! ### Reading -/

/-- A node, and the formula inside if it is a pair of parentheses. -/
structure Item where
  nest : Nest
  inside : Option Formula

/-- The node is a word. -/
def isWord (w : String) : Nest → Bool
  | .token (.word letters) => letters = w.toList
  | _ => false

/-- The node is a blank. -/
def isBlank : Nest → Bool
  | .token (.mark c) => c = ' '
  | _ => false

/-- The parts between the ORs. -/
def disjuncts : List Item → List (List Item)
  | [] => [[]]
  | i :: is => if isWord "OR" i.nest then [] :: disjuncts is else putBefore [i] (disjuncts is)

/-- Whether an AND is awaited by a BETWEEN, after a node. -/
def awaitsAnd (between : Bool) (n : Nest) : Bool :=
  isWord "BETWEEN" n || (between && !isWord "AND" n)

/-- The parts between the ANDs, but for those that a BETWEEN awaits. -/
def conjuncts (between : Bool) : List Item → List (List Item)
  | [] => [[]]
  | i :: is =>
    if isWord "AND" i.nest && !between then [] :: conjuncts false is
    else putBefore [i] (conjuncts (awaitsAnd between i.nest) is)

/-- The formula of a part without AND and OR. -/
def piece : List Item → Formula
  | [⟨_, some f⟩] => f
  | [⟨n, none⟩] =>
    if isWord "TRUE" n then .constant true
    else if isWord "FALSE" n then .constant false
    else .atom [n]
  | is => .atom (is.map Item.nest)

/-- The formula of a text whose parentheses have been read. -/
def formulaOf (is : List Item) : Formula :=
  .any ((disjuncts is).map fun d => .all ((conjuncts false d).map piece))

mutual

/-- A node with what is inside. -/
def Nest.item : Nest → Item
  | .token t => ⟨.token t, none⟩
  | .parens inside => ⟨.parens inside, some (formulaOf (itemsOf inside))⟩

/-- The nodes of a forest that are no blanks. -/
def itemsOf : List Nest → List Item
  | [] => []
  | n :: ns => if isBlank n then itemsOf ns else n.item :: itemsOf ns

end

/-- The formula of a text, if its parentheses match. -/
def formula? (text : String) : Option Formula :=
  (nests (tokens text)).map fun f => formulaOf (itemsOf f)

/-! ### Items -/

theorem itemsOf_append (f g : List Nest) : itemsOf (f ++ g) = itemsOf f ++ itemsOf g := by
  induction f with
  | nil => rfl
  | cons n f ih =>
    rw [List.cons_append, itemsOf, itemsOf, ih]
    split
    · rfl
    · rfl

theorem itemsOf_intercalate (g : List Nest) (fs : List (List Nest)) :
    itemsOf (g.intercalate fs) = (itemsOf g).intercalate (fs.map itemsOf) := by
  induction fs with
  | nil => rfl
  | cons f fs ih =>
    cases fs with
    | nil => rw [List.map_singleton, List.intercalate_singleton, List.intercalate_singleton]
    | cons f' fs =>
      rw [List.intercalate_cons_cons, itemsOf_append, itemsOf_append, ih, List.map_cons,
        List.map_cons, List.map_cons, List.intercalate_cons_cons]

@[simp] theorem Nest.nest_item (n : Nest) : n.item.nest = n := by
  cases n <;> rw [Nest.item]

/-- The nodes of items are those of the forest, without blanks. -/
theorem map_nest_itemsOf (f : List Nest) :
    (itemsOf f).map Item.nest = f.filter fun n => !isBlank n := by
  induction f with
  | nil => rfl
  | cons n f ih =>
    by_cases hblank : isBlank n = true
    · rw [itemsOf, if_pos hblank, ih, List.filter_cons_of_neg (by simp [hblank])]
    · rw [itemsOf, if_neg hblank, List.map_cons, ih, List.filter_cons_of_pos (by simp [hblank]),
        Nest.nest_item]

theorem mem_of_mem_itemsOf {f : List Nest} {i : Item} (h : i ∈ itemsOf f) : i.nest ∈ f := by
  have hmem : i.nest ∈ (itemsOf f).map Item.nest := List.mem_map_of_mem h
  rw [map_nest_itemsOf] at hmem
  exact (List.mem_filter.mp hmem).1

/-! ### Closed parts -/

theorem disjuncts_ne_nil (is : List Item) : disjuncts is ≠ [] := by
  cases is with
  | nil => exact List.cons_ne_nil _ _
  | cons i is =>
    unfold disjuncts
    split
    · exact List.cons_ne_nil _ _
    · exact putBefore_ne_nil _ _

theorem conjuncts_ne_nil (between : Bool) (is : List Item) : conjuncts between is ≠ [] := by
  cases is with
  | nil => exact List.cons_ne_nil _ _
  | cons i is =>
    unfold conjuncts
    split
    · exact List.cons_ne_nil _ _
    · exact putBefore_ne_nil _ _

/-- Items that are cut neither at an OR nor at an AND, and after which no AND is
awaited: what follows them is read as if it stood alone. -/
structure Closed (is : List Item) : Prop where
  disjuncts_append : ∀ js, disjuncts (is ++ js) = putBefore is (disjuncts js)
  conjuncts_append : ∀ js, conjuncts false (is ++ js) = putBefore is (conjuncts false js)

/-- A word that no reading depends on. -/
def isQuiet (n : Nest) : Bool :=
  !isWord "OR" n && !isWord "AND" n && !isWord "BETWEEN" n

theorem isQuiet_iff {n : Nest} : isQuiet n = true ↔
    isWord "OR" n = false ∧ isWord "AND" n = false ∧ isWord "BETWEEN" n = false := by
  simp only [isQuiet, Bool.and_eq_true, Bool.not_eq_true', and_assoc]

theorem disjuncts_append_of_no_or {is : List Item} (h : ∀ i ∈ is, isWord "OR" i.nest = false)
    (js : List Item) : disjuncts (is ++ js) = putBefore is (disjuncts js) := by
  induction is with
  | nil => exact (putBefore_nil (disjuncts_ne_nil js)).symm
  | cons i is ih =>
    have hi := h i List.mem_cons_self
    rw [List.cons_append, disjuncts, hi, ih fun j hj => h j (List.mem_cons_of_mem i hj)]
    exact putBefore_putBefore [i] is (disjuncts_ne_nil js)

/-- Quiet items leave an AND awaited or not, as it was. -/
theorem conjuncts_append_of_isQuiet {is : List Item} (h : ∀ i ∈ is, isQuiet i.nest = true)
    (between : Bool) (js : List Item) :
    conjuncts between (is ++ js) = putBefore is (conjuncts between js) := by
  -- no item is an AND or a BETWEEN, so that `between` stays as it is
  induction is with
  | nil => exact (putBefore_nil (conjuncts_ne_nil between js)).symm
  | cons i is ih =>
    obtain ⟨-, hand, hbetween⟩ := isQuiet_iff.mp (h i List.mem_cons_self)
    have hawaits : awaitsAnd between i.nest = between := by
      rw [awaitsAnd, hand, hbetween]
      cases between <;> rfl
    rw [List.cons_append, conjuncts, hand, hawaits,
      ih fun j hj => h j (List.mem_cons_of_mem i hj)]
    exact putBefore_putBefore [i] is (conjuncts_ne_nil between js)

theorem closed_of_isQuiet {is : List Item} (h : ∀ i ∈ is, isQuiet i.nest = true) : Closed is := by
  refine ⟨?_, conjuncts_append_of_isQuiet h Bool.false⟩
  apply disjuncts_append_of_no_or
  intro i hi
  exact (isQuiet_iff.mp (h i hi)).1

/-- The item of a word. -/
def wordItem (w : String) : Item :=
  ⟨.token (.word w.toList), none⟩

theorem conjuncts_between (js : List Item) :
    conjuncts false (wordItem "BETWEEN" :: js)
      = putBefore [wordItem "BETWEEN"] (conjuncts Bool.true js) :=
  rfl

theorem conjuncts_awaited (js : List Item) :
    conjuncts true (wordItem "AND" :: js) = putBefore [wordItem "AND"] (conjuncts Bool.false js) :=
  rfl

/-- An operand BETWEEN two bounds is not cut at its AND. -/
theorem closed_between {xs lows highs : List Item} (hxs : ∀ i ∈ xs, isQuiet i.nest = true)
    (hlows : ∀ i ∈ lows, isQuiet i.nest = true) (hhighs : ∀ i ∈ highs, isQuiet i.nest = true) :
    Closed (xs ++ wordItem "BETWEEN" :: (lows ++ wordItem "AND" :: highs)) := by
  constructor
  · apply disjuncts_append_of_no_or
    intro i hi
    simp only [List.mem_append, List.mem_cons] at hi
    rcases hi with hi | rfl | hi | rfl | hi
    · exact (isQuiet_iff.mp (hxs i hi)).1
    · rfl
    · exact (isQuiet_iff.mp (hlows i hi)).1
    · rfl
    · exact (isQuiet_iff.mp (hhighs i hi)).1
  · intro js
    have hne := conjuncts_ne_nil Bool.false js
    -- the AND is awaited from the BETWEEN on, and taken where it comes
    rw [List.append_assoc, conjuncts_append_of_isQuiet hxs, List.cons_append, conjuncts_between,
      List.append_assoc, conjuncts_append_of_isQuiet hlows, List.cons_append, conjuncts_awaited,
      conjuncts_append_of_isQuiet hhighs, putBefore_putBefore _ highs hne,
      putBefore_putBefore lows _ hne, putBefore_putBefore _ _ hne, putBefore_putBefore xs _ hne]
    rfl

/-! ### Joined parts -/

section Cut

variable {α : Type} {cut : List α → List (List α)} (hnil : cut [] = [[]])
include hnil

/-- What is kept together in front of everything is kept together alone. -/
theorem cut_eq_singleton {xs : List α} (h : ∀ ys, cut (xs ++ ys) = putBefore xs (cut ys)) :
    cut xs = [xs] := by
  have hend := h []
  rw [List.append_nil] at hend
  rw [hend, hnil, putBefore, List.append_nil]

/-- Lists that are kept together and joined by a separator are what is between
the separators. -/
theorem cut_intercalate {sep : α} (hsep : ∀ ys, cut (sep :: ys) = [] :: cut ys)
    {xss : List (List α)} (h : ∀ xs ∈ xss, ∀ ys, cut (xs ++ ys) = putBefore xs (cut ys))
    (hne : xss ≠ []) : cut ([sep].intercalate xss) = xss := by
  induction xss with
  | nil => exact absurd rfl hne
  | cons xs xss ih =>
    have hxs := h xs List.mem_cons_self
    cases xss with
    | nil =>
      rw [List.intercalate_singleton]
      exact cut_eq_singleton hnil hxs
    | cons ys yss =>
      have hrest := ih (fun zs hzs => h zs (List.mem_cons_of_mem xs hzs)) (List.cons_ne_nil ys yss)
      rw [List.intercalate_cons_cons, List.append_assoc, hxs, List.singleton_append, hsep, hrest,
        putBefore, List.append_nil]

end Cut

theorem Closed.conjuncts_eq {is : List Item} (h : Closed is) : conjuncts false is = [is] :=
  cut_eq_singleton rfl h.conjuncts_append

theorem conjuncts_intercalate_and {iss : List (List Item)} (h : ∀ is ∈ iss, Closed is)
    (hne : iss ≠ []) : conjuncts false ([wordItem "AND"].intercalate iss) = iss := by
  apply cut_intercalate rfl (fun _ => rfl) _ hne
  intro is his
  exact (h is his).conjuncts_append

theorem disjuncts_intercalate_or {iss : List (List Item)} (h : ∀ is ∈ iss, Closed is)
    (hne : iss ≠ []) : disjuncts ([wordItem "OR"].intercalate iss) = iss := by
  apply cut_intercalate rfl (fun _ => rfl) _ hne
  intro is his
  exact (h is his).disjuncts_append

/-- ANDs cut nothing at an OR. -/
theorem disjuncts_intercalate_and {iss : List (List Item)} (h : ∀ is ∈ iss, Closed is) :
    disjuncts ([wordItem "AND"].intercalate iss) = [[wordItem "AND"].intercalate iss] := by
  apply cut_eq_singleton rfl
  induction iss with
  | nil => exact fun js => (putBefore_nil (disjuncts_ne_nil js)).symm
  | cons is iss ih =>
    intro js
    have his : Closed is := h is List.mem_cons_self
    cases iss with
    | nil =>
      rw [List.intercalate_singleton]
      exact his.disjuncts_append js
    | cons k ks =>
      have hrest := ih (fun l hl => h l (List.mem_cons_of_mem is hl)) js
      rw [List.intercalate_cons_cons, List.append_assoc, List.append_assoc,
        his.disjuncts_append, List.singleton_append, disjuncts]
      -- the AND is kept, and so is what stands before and after it
      show putBefore is (putBefore [wordItem "AND"] (disjuncts _)) = _
      have hne := disjuncts_ne_nil js
      rw [hrest, putBefore_putBefore _ _ hne, putBefore_putBefore _ _ hne, List.append_assoc]

/-- Closed texts that are joined with AND are read as their conjunction. -/
theorem formulaOf_and {iss : List (List Item)} (h : ∀ is ∈ iss, Closed is) (hne : iss ≠ []) :
    formulaOf ([wordItem "AND"].intercalate iss) = .any [.all (iss.map piece)] := by
  rw [formulaOf, disjuncts_intercalate_and h, List.map_singleton,
    conjuncts_intercalate_and h hne]

/-- Closed texts that are joined with OR are read as their disjunction. -/
theorem formulaOf_or {iss : List (List Item)} (h : ∀ is ∈ iss, Closed is) (hne : iss ≠ []) :
    formulaOf ([wordItem "OR"].intercalate iss) = .any (iss.map fun is => .all [piece is]) := by
  rw [formulaOf, disjuncts_intercalate_or h hne]
  -- each disjunct is closed, and so a single conjunct
  congr 1
  apply List.map_congr_left
  intro is his
  rw [(h is his).conjuncts_eq, List.map_singleton]

end CriteriaSql.Sql
