/-
CriteriaSql/Proofs/Criteria/Logic.lean

What compiled criteria mean.

`Outline.formula` is the meaning of a tree: entries and `and` groups are
conjunctions, `or` groups are disjunctions, and predicates are the atoms, in
order; a predicate that has become a constant is that constant.  Without casts
the text of a predicate is a single piece of any text that it is put into
(`Fragment.reads`), and the parentheses of the groups keep their pieces
together (`Outline.reads`).

Main result: the text of compiled criteria is read as the formula of its tree
(`formula_compile`).
-/
import CriteriaSql.Proofs.Criteria.Forest
import CriteriaSql.Proofs.Sql.Logic

namespace CriteriaSql

open Sql (Closed Formula Nest Nested Truth flat formulaOf isBlank isQuiet isWord itemsOf piece
  wordItem)

/-! ### The meaning of a tree -/

/-- The formula of a predicate: an atom, or the constant that it has become. -/
def leafFormula (c : Clause) : Formula :=
  if c.conditions = "TRUE" then .constant true
  else if c.conditions = "FALSE" then .constant false
  else .atom ((leafForest c).filter fun n => !isBlank n)

namespace Outline

mutual

/-- The formula of an entry. -/
def formula : Outline → Formula
  | .predicate c => leafFormula c
  | .group .any branches => .any (branchFormulas branches)
  | .group .all branches => .all (branchFormulas branches)

/-- The formulas of entries. -/
def entryFormulas : List Outline → List Formula
  | [] => []
  | o :: os => o.formula :: entryFormulas os

/-- The formulas of branches. -/
def branchFormulas : List (List Outline) → List Formula
  | [] => []
  | os :: branches => .all (entryFormulas os) :: branchFormulas branches

end

theorem entryFormulas_eq_map (os : List Outline) : entryFormulas os = os.map formula := by
  induction os with
  | nil => rfl
  | cons o os ih => rw [entryFormulas, ih, List.map_cons]

theorem branchFormulas_eq_map (branches : List (List Outline)) :
    branchFormulas branches = branches.map fun os => .all (entryFormulas os) := by
  induction branches with
  | nil => rfl
  | cons os branches ih => rw [branchFormulas, ih, List.map_cons]

end Outline

/-! ### Predicates -/

/-- The text of a predicate is one piece, which stands for its formula. -/
structure Reads (c : Clause) : Prop where
  closed : Closed (itemsOf (leafForest c))
  piece_eq : piece (itemsOf (leafForest c)) = leafFormula c

/-- No word of a forest is one that a reading depends on. -/
def Quiet (f : List Nest) : Prop :=
  ∀ n ∈ f, isQuiet n = true

instance (f : List Nest) : Decidable (Quiet f) :=
  inferInstanceAs (Decidable (∀ n ∈ f, isQuiet n = true))

theorem Quiet.items {f : List Nest} (h : Quiet f) : ∀ i ∈ itemsOf f, isQuiet i.nest = true :=
  fun _ hi => h _ (Sql.mem_of_mem_itemsOf hi)

theorem Quiet.append {f g : List Nest} (hf : Quiet f) (hg : Quiet g) : Quiet (f ++ g) := by
  intro n hn
  rcases List.mem_append.mp hn with hn | hn
  · exact hf n hn
  · exact hg n hn

/-- Words without letters are quiet. -/
theorem quiet_flat_of_plainText {text : String} (h : Sql.PlainText text) : Quiet (flat text) := by
  intro n hn
  obtain ⟨t, ht, rfl⟩ := List.mem_map.mp hn
  have hplain := h.plain t ht
  cases t with
  | word letters =>
    -- OR, AND and BETWEEN have letters
    have hword : ∀ w : String, w.toList.any Char.isAlpha = true →
        isWord w (.token (.word letters)) = false := by
      intro w hw
      apply decide_eq_false
      rintro rfl
      obtain ⟨c, hc, halpha⟩ := List.any_eq_true.mp hw
      have hnot := List.all_eq_true.mp hplain c hc
      rw [halpha] at hnot
      cases hnot
    rw [Sql.isQuiet_iff]
    exact ⟨hword "OR" (by decide), hword "AND" (by decide), hword "BETWEEN" (by decide)⟩
  | quoted | unclosed | placeholder | mark => rfl

theorem quiet_parens (f : List Nest) : Quiet [.parens f] := by
  intro n hn
  obtain rfl := List.mem_singleton.mp hn
  rfl

/-- Without a cast, operands are quiet. -/
theorem Operand.quiet {k : Key} (hk : k.cast = none) {field : String} (h : Operand k field) :
    ∃ f, Nested field f ∧ Quiet f := by
  cases h with
  | column =>
    have hplain := Key.plainText_columnPath k
    have hfield : k.field = Key.followPath (Text.quoteIdent k.column) k.path := by
      rw [Key.field, hk, Key.applyCast]
    rw [hfield]
    exact ⟨_, Key.nested_of_plainText hplain, quiet_flat_of_plainText hplain⟩
  | body =>
    have hplain := Sql.plainText_write .identifier "body"
    exact ⟨_, Key.nested_of_plainText hplain, quiet_flat_of_plainText hplain⟩
  | cast hcast => exact absurd hk hcast
  | typed type htype =>
    have hname : Quiet (flat "::" ++ flat type) := by
      rcases htype with rfl | rfl | rfl <;> decide
    refine ⟨_, nested_typed k htype, ?_⟩
    -- the path is inside parentheses, which hide its words
    rw [List.append_assoc]
    exact (quiet_parens _).append hname
  | text => exact ⟨_, nested_text k, quiet_parens _⟩

/-! ### Fragments -/

theorem piece_of_two_le {is : List Sql.Item} (h : 2 ≤ is.length) :
    piece is = .atom (is.map Sql.Item.nest) := by
  rcases is with - | ⟨i, - | ⟨j, is⟩⟩
  · cases h
  · exact absurd h (Nat.not_succ_le_self 1)
  · rcases i with ⟨n, - | f⟩ <;> rfl

/-- A closed text of two pieces or more is an atom, and not a constant. -/
theorem reads_of_closed {c : Clause} {g : List Nest} (hg : Nested c.conditions g)
    (hclosed : Closed (itemsOf g)) (hlen : 2 ≤ (itemsOf g).length) : Reads c := by
  -- TRUE and FALSE are one piece each
  have hconstant : ∀ text : String, Nested text (flat text) → (itemsOf (flat text)).length = 1 →
      c.conditions ≠ text := by
    intro text htext hone heq
    rw [heq] at hg
    rw [hg.unique htext, hone] at hlen
    exact absurd hlen (by decide)
  have htrue := hconstant "TRUE" (nested_constant (Or.inr (Or.inl rfl))) rfl
  have hfalse := hconstant "FALSE" (nested_constant (Or.inr (Or.inr rfl))) rfl
  refine ⟨?_, ?_⟩
  · rw [hg.leafForest_eq]
    exact hclosed
  · rw [leafFormula, if_neg htrue, if_neg hfalse, hg.leafForest_eq, piece_of_two_le hlen,
      Sql.map_nest_itemsOf]

theorem flat_placeholder (n : Nat) :
    flat (placeholder n) = [.token (.placeholder (Nat.toDigits 10 n))] := by
  rw [flat, Sql.tokens_placeholder, List.map_singleton]

theorem quiet_placeholder (n : Nat) : Quiet (flat (placeholder n)) := by
  rw [flat_placeholder]
  intro m hm
  obtain rfl := List.mem_singleton.mp hm
  rfl

theorem RightSide.quiet {r : List Nest} (h : RightSide r) :
    Quiet r ∧ 1 ≤ (itemsOf r).length := by
  cases h with
  | constant htext => rcases htext with rfl | rfl | rfl <;> exact ⟨by decide, Nat.le_refl 1⟩
  | value n =>
    refine ⟨quiet_placeholder n, ?_⟩
    rw [flat_placeholder]
    exact Nat.le_refl 1
  | members inside => exact ⟨quiet_parens inside, Nat.le_refl 1⟩

theorem quiet_operator {operator : String} (h : operator ∈ Operation.listed) :
    Quiet (flat operator) ∧ 1 ≤ (itemsOf (flat operator)).length := by
  revert operator
  decide

/-- Blanks aside, a comparison is its three parts. -/
theorem itemsOf_comparisonForest (f : List Nest) (operator : String) (r : List Nest) :
    itemsOf (comparisonForest f operator r) = itemsOf f ++ itemsOf (flat operator) ++ itemsOf r := by
  have hblank : itemsOf (flat " ") = [] := rfl
  simp only [comparisonForest, Sql.itemsOf_append, hblank, List.append_nil]

theorem reads_constant {c : Clause} (h : c.conditions = "TRUE" ∨ c.conditions = "FALSE") :
    Reads c := by
  have hnested : Nested c.conditions (flat c.conditions) := nested_constant (Or.inr h)
  have hforest : leafForest c = flat c.conditions := hnested.leafForest_eq
  refine ⟨?_, ?_⟩
  · rw [hforest]
    apply Sql.closed_of_isQuiet
    apply Quiet.items
    rcases h with h | h <;> rw [h] <;> decide
  · rw [leafFormula, hforest]
    rcases h with h | h <;> rw [h] <;> rfl

theorem reads_comparison {c : Clause} {f r : List Nest} {operator : String} (hf : Quiet f)
    (hop : operator ∈ Operation.listed) (hr : RightSide r)
    (hg : Nested c.conditions (comparisonForest f operator r)) : Reads c := by
  obtain ⟨hopQuiet, hopLen⟩ := quiet_operator hop
  obtain ⟨hrQuiet, hrLen⟩ := hr.quiet
  have hclosed : Closed (itemsOf (comparisonForest f operator r)) := by
    rw [itemsOf_comparisonForest, ← Sql.itemsOf_append, ← Sql.itemsOf_append]
    exact Sql.closed_of_isQuiet ((hf.append hopQuiet).append hrQuiet).items
  have hlen : 2 ≤ (itemsOf (comparisonForest f operator r)).length := by
    rw [itemsOf_comparisonForest, List.length_append, List.length_append]
    omega
  exact reads_of_closed hg hclosed hlen

/-- The AND of a BETWEEN is not one that joins two pieces. -/
theorem reads_bounds {c : Clause} {f : List Nest} (hf : Quiet f) {n m : Nat}
    (hg : Nested c.conditions (comparisonForest f "BETWEEN"
      (flat (placeholder n) ++ flat " AND " ++ flat (placeholder m)))) : Reads c := by
  have htokens : Sql.tokens "BETWEEN" = [.word "BETWEEN".toList] := by decide +kernel
  have hbetween : itemsOf (flat "BETWEEN") = [wordItem "BETWEEN"] := by
    rw [flat, htokens]
    rfl
  have hand : itemsOf (flat " AND ") = [wordItem "AND"] := rfl
  have hitems : itemsOf (comparisonForest f "BETWEEN"
      (flat (placeholder n) ++ flat " AND " ++ flat (placeholder m)))
      = itemsOf f ++ wordItem "BETWEEN" :: (itemsOf (flat (placeholder n))
        ++ wordItem "AND" :: itemsOf (flat (placeholder m))) := by
    rw [itemsOf_comparisonForest, Sql.itemsOf_append, Sql.itemsOf_append, hbetween, hand,
      List.append_assoc, List.append_assoc, List.singleton_append, List.singleton_append]
  have hclosed := Sql.closed_between hf.items (quiet_placeholder n).items
    (quiet_placeholder m).items
  rw [← hitems] at hclosed
  have hlen : 2 ≤ (itemsOf (comparisonForest f "BETWEEN"
      (flat (placeholder n) ++ flat " AND " ++ flat (placeholder m)))).length := by
    rw [hitems]
    simp only [List.length_append, List.length_cons]
    omega
  exact reads_of_closed hg hclosed hlen

/-- A fragment on a quiet operand is one piece. -/
theorem FragmentForest.reads {c : Clause} {f g : List Nest} (hf : Quiet f)
    (hg : Nested c.conditions g) (h : FragmentForest f c.conditions g) : Reads c := by
  cases h with
  | truth htext => exact reads_constant htext
  | comparison hop hr => exact reads_comparison hf hop hr hg
  | bounds n m => exact reads_bounds hf hg

theorem reads_predicateClause {target : Target} {siblings : Criteria} {offset : Nat}
    {key : String} {value : Json} {clause : Clause} (hkey : (Key.parse key).cast = none)
    (h : Criteria.predicateClause target siblings offset key value = .ok clause) :
    Reads clause := by
  obtain ⟨field, hoperand, hfragment⟩ := fragment_of_predicateClause h
  obtain ⟨f, hf, hquiet⟩ := hoperand.quiet hkey
  obtain ⟨g, hg, hforest⟩ := hfragment.nested hf
  exact hforest.reads hquiet hg

/-! ### Trees -/

namespace Outline

/-- The text of an entry is one piece, which means what the entry means. -/
structure Means (o : Outline) : Prop where
  closed : Closed (itemsOf o.forest)
  equiv : (piece (itemsOf o.forest)).Equiv o.formula

/-- The text of entries is read as their conjunction. -/
theorem equiv_entries {os : List Outline} (h : ∀ o ∈ os, o.Means) :
    (formulaOf (itemsOf (conjunctionForest (entryForests os)))).Equiv
      (.all (entryFormulas os)) := by
  rw [entryForests_eq_map, entryFormulas_eq_map]
  rcases os with - | ⟨o, os⟩
  · exact ⟨rfl, fun _ _ => rfl⟩
  · have hand : itemsOf (flat " AND ") = [wordItem "AND"] := rfl
    have hclosed : ∀ is ∈ ((o :: os).map forest).map itemsOf, Closed is := by
      intro is his
      rw [List.map_map] at his
      obtain ⟨o', ho', rfl⟩ := List.mem_map.mp his
      exact (h o' ho').closed
    -- the entries stand side by side, without parentheses of their own
    show (formulaOf (itemsOf ((flat " AND ").intercalate ((o :: os).map forest)))).Equiv _
    rw [Sql.itemsOf_intercalate, hand, Sql.formulaOf_and hclosed (List.cons_ne_nil _ _),
      List.map_map, List.map_map]
    exact (Formula.equiv_any_singleton _).trans
      (Formula.equiv_all fun o' ho' => (h o' ho').equiv)

/-- A constant that stands for a group without branches. -/
theorem means_emptyGroup (connective : Connective) : (Outline.group connective []).Means := by
  cases connective with
  | any => exact ⟨Sql.closed_of_isQuiet (by decide), rfl, fun _ _ => rfl⟩
  | all => exact ⟨Sql.closed_of_isQuiet (by decide), rfl, fun _ _ => rfl⟩

/-- Branches in parentheses, which nothing cuts. -/
theorem closed_branches (fs : List (List Nest)) :
    ∀ is ∈ (fs.map fun f => [Nest.parens f]).map itemsOf, Closed is := by
  intro is his
  rw [List.map_map] at his
  obtain ⟨f, -, rfl⟩ := List.mem_map.mp his
  exact Sql.closed_of_isQuiet (quiet_parens f).items

/-- The text of a group is read as the formula of the group. -/
theorem equiv_group {branches : List (List Outline)} (connective : Connective)
    (hne : branches ≠ []) (h : ∀ os ∈ branches, ∀ o ∈ os, o.Means) :
    (formulaOf (itemsOf ((flat (Clause.joiner connective)).intercalate
      ((branchForests branches).map fun f => [Nest.parens f])))).Equiv
      (Outline.group connective branches).formula := by
  have hbranch : ∀ os ∈ branches, (formulaOf (itemsOf (conjunctionForest
      (entryForests os)))).Equiv (.all (entryFormulas os)) := by
    intro os hos
    exact equiv_entries (h os hos)
  have hclosed := closed_branches (branchForests branches)
  rw [branchForests_eq_map, List.map_map, List.map_map] at hclosed
  have hmap : branches.map (itemsOf ∘ ((fun f => [Nest.parens f]) ∘ fun os =>
      conjunctionForest (entryForests os))) ≠ [] := by
    intro hnil
    exact hne (List.map_eq_nil_iff.mp hnil)
  rw [Sql.itemsOf_intercalate, branchForests_eq_map, List.map_map, List.map_map]
  cases connective with
  | any =>
    -- one disjunct for each branch, which is a single piece
    have hor : itemsOf (flat (Clause.joiner .any)) = [wordItem "OR"] := rfl
    rw [hor, Sql.formulaOf_or hclosed hmap, List.map_map, formula, branchFormulas_eq_map]
    apply Formula.equiv_any
    intro os hos
    exact (Formula.equiv_all_singleton _).trans (hbranch os hos)
  | all =>
    -- one disjunct in all, with one conjunct for each branch
    have hand : itemsOf (flat (Clause.joiner .all)) = [wordItem "AND"] := rfl
    rw [hand, Sql.formulaOf_and hclosed hmap, List.map_map, formula, branchFormulas_eq_map]
    refine (Formula.equiv_any_singleton _).trans ?_
    apply Formula.equiv_all
    intro os hos
    exact hbranch os hos

/-- Every tree means what it is read as, when its predicates are single
pieces. -/
theorem means {o : Outline} (h : ∀ c ∈ o.leaves, Reads c) : o.Means := by
  induction o with
  | predicate c =>
    have hc := h c (List.mem_singleton.mpr rfl)
    refine ⟨hc.closed, ?_⟩
    show (piece (itemsOf (leafForest c))).Equiv (leafFormula c)
    rw [hc.piece_eq]
    exact Formula.Equiv.refl _
  | group connective branches ih =>
    have hentries : ∀ os ∈ branches, ∀ o ∈ os, o.Means := by
      intro os hos o ho
      apply ih os hos o ho
      intro c hc
      exact h c (mem_branchLeaves hos (mem_entryLeaves ho hc))
    rcases branches with - | ⟨os, branches⟩
    · exact means_emptyGroup connective
    · exact ⟨Sql.closed_of_isQuiet (quiet_parens _).items,
        equiv_group connective (List.cons_ne_nil _ _) hentries⟩

/-- The atoms of an entry are those of its predicates, in order. -/
theorem atoms_formula (o : Outline) :
    o.formula.atoms = o.leaves.flatMap fun c => (leafFormula c).atoms := by
  induction o with
  | predicate c => rw [formula, leaves, List.flatMap_singleton]
  | group connective branches ih =>
    have hatoms : (Outline.group connective branches).formula.atoms
        = Formula.listAtoms (branchFormulas branches) := by
      cases connective <;> rfl
    rw [hatoms, leaves, branchFormulas_eq_map, branchLeaves_eq_flatMap,
      Formula.listAtoms_eq_flatMap, List.flatMap_map, List.flatMap_assoc]
    apply List.flatMap_congr
    intro os hos
    show Formula.listAtoms (entryFormulas os) = _
    rw [entryFormulas_eq_map, entryLeaves_eq_flatMap, Formula.listAtoms_eq_flatMap,
      List.flatMap_map, List.flatMap_assoc]
    apply List.flatMap_congr
    intro o ho
    exact ih os hos o ho

theorem atoms_entryFormulas (os : List Outline) :
    (Formula.all (entryFormulas os)).atoms
      = (entryLeaves os).flatMap fun c => (leafFormula c).atoms := by
  show Formula.listAtoms (entryFormulas os) = _
  rw [entryFormulas_eq_map, entryLeaves_eq_flatMap, Formula.listAtoms_eq_flatMap,
    List.flatMap_map, List.flatMap_assoc]
  apply List.flatMap_congr
  intro o _
  exact atoms_formula o

end Outline

/-! ### Compiled criteria -/

namespace Criteria

theorem castContained_of_cast_eq_none {k : Key} (h : k.cast = none) : k.CastContained := by
  intro type htype
  rw [h] at htype
  cases htype

/-- The text of compiled criteria without casts is read as the formula of the
criteria: its atoms are the compiled predicates that are no constants, in order,
and under every assignment of truth values to them it has the value of the
tree. -/
theorem formula_compile {target : Target} {offset : Nat} {criteria : Criteria} {clause : Clause}
    (hkeys : ∀ p ∈ predicates criteria, (Key.parse p.1).cast = none)
    (h : compile target offset criteria = .ok clause) :
    ∃ os f, outlines target criteria offset criteria = .ok os
      ∧ Chained target offset (predicates criteria) (Outline.entryLeaves os)
      ∧ Sql.formula? clause.conditions = some f
      ∧ f.atoms = (Outline.entryLeaves os).flatMap (fun c => (leafFormula c).atoms)
      ∧ ∀ v, f.value v 0 = (Formula.all (Outline.entryFormulas os)).value v 0 := by
  obtain ⟨os, hos, rfl⟩ := compile_eq_ok_iff.mp h
  have hchain := chained_of_outlines hos
  have hnested := nested_outlines (fun p hp => castContained_of_cast_eq_none (hkeys p hp)) hos
  have hmeans : ∀ o ∈ os, o.Means := by
    intro o ho
    apply Outline.means
    intro c hc
    -- a leaf is the clause of a predicate, whose key has no cast
    obtain ⟨siblings, offset', key, value, hmem, hclause⟩ :=
      hchain.exists_predicate (Outline.mem_entryLeaves ho hc)
    exact reads_predicateClause (hkeys _ hmem) hclause
  have hequiv := Outline.equiv_entries hmeans
  have hread : Sql.formula? (Clause.conjunction (Outline.clauses os)).conditions
      = some (formulaOf (itemsOf (conjunctionForest (Outline.entryForests os)))) := by
    rw [Sql.formula?, hnested.nests_eq]
    rfl
  refine ⟨os, _, hos, hchain, hread, ?_, fun v => hequiv.value_eq v 0⟩
  rw [hequiv.atoms_eq]
  exact Outline.atoms_entryFormulas os

/-- BETWEEN keeps its AND, and a branch without entries is true. -/
theorem formula_compile_between :
    compile ⟨.table, []⟩ 0 [.predicate "a" (.str "x"),
        .group .any [[.predicate "b between" (.arr [.str "y", .str "z"])], []]]
      = .ok ⟨"\"a\" = $1 AND ((\"b\" BETWEEN $2 AND $3) OR (TRUE))",
          [.str "x", .str "y", .str "z"]⟩
    ∧ ∃ f, Sql.formula? "\"a\" = $1 AND ((\"b\" BETWEEN $2 AND $3) OR (TRUE))" = some f
      ∧ f.atoms.length = 2
      ∧ ∀ v, f.value v 0 = (v 0).and ((v 1).or .true) := by
  have ha : Key.parse "a" = ⟨"a", [], none, ""⟩ := by decide +kernel
  have hb : Key.parse "b between" = ⟨"b", [], none, "between"⟩ := by decide +kernel
  have hbetween : Operation.resolve "between" = ⟨"BETWEEN", some .between⟩ := by decide +kernel
  have hequal : ∀ siblings, predicateClause ⟨.table, []⟩ siblings 0 "a" (.str "x")
      = .ok ⟨"\"a\" = $1", [.str "x"]⟩ := by
    intro siblings
    rw [predicateClause, ha]
    rfl
  have hbounds : ∀ siblings, predicateClause ⟨.table, []⟩ siblings 1 "b between"
      (.arr [.str "y", .str "z"]) = .ok ⟨"\"b\" BETWEEN $2 AND $3", [.str "y", .str "z"]⟩ := by
    intro siblings
    rw [predicateClause, hb]
    dsimp only
    rw [hbetween]
    rfl
  have hbranches : branchOutlines ⟨.table, []⟩ 1
      [[.predicate "b between" (.arr [.str "y", .str "z"])], []]
      = .ok [[.predicate ⟨"\"b\" BETWEEN $2 AND $3", [.str "y", .str "z"]⟩], []] := by
    rw [branchOutlines, outlines, outlineOf, hbounds]
    rfl
  generalize hcriteria : ([.predicate "a" (.str "x"),
    .group .any [[.predicate "b between" (.arr [.str "y", .str "z"])], []]] : Criteria) = criteria
  have hkeys : ∀ p ∈ predicates criteria, (Key.parse p.1).cast = none := by
    intro p hp
    rw [← hcriteria] at hp
    rcases List.mem_cons.mp hp with rfl | hp
    · rw [ha]
    · obtain rfl := List.mem_singleton.mp hp
      rw [hb]
  have hos : outlines ⟨.table, []⟩ criteria 0 criteria
      = .ok [.predicate ⟨"\"a\" = $1", [.str "x"]⟩,
        .group .any [[.predicate ⟨"\"b\" BETWEEN $2 AND $3", [.str "y", .str "z"]⟩], []]] := by
    rw [← hcriteria, outlines, outlineOf, hequal]
    show (outlines ⟨.table, []⟩ _ 1 _ >>= _) = _
    rw [outlines, outlineOf, hbranches]
    rfl
  have hcompile : compile ⟨.table, []⟩ 0 criteria
      = .ok ⟨"\"a\" = $1 AND ((\"b\" BETWEEN $2 AND $3) OR (TRUE))",
          [.str "x", .str "y", .str "z"]⟩ :=
    compile_eq_ok_iff.mpr ⟨_, hos, rfl⟩
  obtain ⟨os, f, hos', -, hf, hatoms, hvalue⟩ := formula_compile hkeys hcompile
  obtain rfl := Except.ok.inj (hos.symm.trans hos')
  refine ⟨hcompile, f, hf, ?_, ?_⟩
  · rw [hatoms]
    rfl
  · intro v
    rw [hvalue]
    show (v 0).and ((((v 1).and .true).or (Truth.true.or .false)).and .true) = _
    rw [Truth.and_true, Truth.and_true, Truth.or_false]

end Criteria

end CriteriaSql
