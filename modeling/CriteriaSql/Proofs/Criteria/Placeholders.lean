/-
CriteriaSql/Proofs/Criteria/Placeholders.lean

The placeholders and the parameters of compiled criteria.

A fragment has one placeholder for each parameter that it binds, numbered from
the next number on (`Fragment.numbered`).  Putting clauses together keeps the
order of their placeholders (`Outline.numbered_clause`), and the offsets of a
chain of predicates leave no number out and use none twice (`Chained.numbers`).

Main result: `placeholders_compile`, which also says what is bound in a table.
-/
import CriteriaSql.Proofs.Criteria.Outline
import CriteriaSql.Proofs.Key.Operand

namespace CriteriaSql

open Sql (Numbered placeholders isGlue)

/-! ### Operands and fragments -/

/-- Operands hold no placeholder. -/
theorem Operand.numbered {k : Key} {field : String} (h : Operand k field) : Numbered field [] := by
  have hpath : Numbered k.bodyPath [] := (Key.plainText_bodyPath k).numbered
  cases h with
  | column => exact Key.numbered_field k
  | body => exact Sql.numbered_quoteIdent "body"
  | cast _ => exact Key.numbered_bodyField k
  | typed type htype =>
    have hleft : Sql.isLead "(" = true := rfl
    have hright : isGlue ")::" = true := rfl
    have hname : Numbered type [] := by
      rcases htype with rfl | rfl | rfl <;> exact Sql.numbered_of_isBare rfl
    exact (hpath.lead hleft).join hright hname
  | text => exact hpath.parens

theorem numbered_operator {operator : String} (h : operator ∈ Operation.comparisons) :
    Numbered operator [] := by
  have hbare : ∀ o ∈ Operation.comparisons, Sql.isBare o = true := by decide
  exact Sql.numbered_of_isBare (hbare operator h)

/-- An operand, an operator and a right side. -/
theorem numbered_comparison {field operator right : String} {ns : List Nat}
    (hfield : Numbered field []) (hop : Numbered operator []) (hright : Numbered right ns) :
    Numbered (field ++ " " ++ operator ++ " " ++ right) ns := by
  have hblank : isGlue " " = true := rfl
  exact (hfield.join hblank hop).join hblank hright

/-- A fragment has the placeholders of its parameters, in order. -/
theorem Fragment.numbered {n : Nat} {field : String} {clause : Clause}
    (hfield : Numbered field []) (h : Fragment n field clause) :
    Numbered clause.conditions (List.range' n clause.params.length) := by
  cases h with
  | truth htext =>
    rcases htext with rfl | rfl <;> exact Sql.numbered_of_isBare rfl
  | constant hop htext =>
    refine numbered_comparison hfield (numbered_operator hop) ?_
    rcases htext with rfl | rfl | rfl <;> exact Sql.numbered_of_isBare rfl
  | value hop v =>
    exact numbered_comparison hfield (numbered_operator hop) (Sql.numbered_placeholder n)
  | bounds low high =>
    have hand : isGlue " AND " = true := rfl
    have hbetween : Numbered "BETWEEN" [] := Sql.numbered_of_isBare rfl
    exact numbered_comparison hfield hbetween
      ((Sql.numbered_placeholder n).join hand (Sql.numbered_placeholder (n + 1)))
  | members hop hitems =>
    have hcomma : isGlue ", " = true := rfl
    refine numbered_comparison hfield ?_
      ((Sql.numberedList_placeholders n _).intercalate hcomma).parens
    rcases hop with rfl | rfl <;> exact Sql.numbered_of_isBare rfl

theorem numbered_predicateClause {target : Target} {siblings : Criteria} {offset : Nat}
    {key : String} {value : Json} {clause : Clause}
    (h : Criteria.predicateClause target siblings offset key value = .ok clause) :
    Numbered clause.conditions (List.range' (offset + 1) clause.params.length) := by
  obtain ⟨field, hoperand, hfragment⟩ := fragment_of_predicateClause h
  exact hfragment.numbered hoperand.numbered

/-! ### Clauses that are put together -/

theorem numbered_conjunction {numbers : Clause → List Nat} {cs : List Clause}
    (h : ∀ c ∈ cs, Numbered c.conditions (numbers c)) :
    Numbered (Clause.conjunction cs).conditions (cs.flatMap numbers) := by
  have hand : isGlue " AND " = true := rfl
  cases cs with
  | nil => exact Sql.numbered_of_isBare rfl
  | cons c cs => exact (Sql.numberedList_map h).intercalate hand

theorem numbered_group {numbers : Clause → List Nat} {cs : List Clause} (connective : Connective)
    (h : ∀ c ∈ cs, Numbered c.conditions (numbers c)) :
    Numbered (Clause.group connective cs).conditions (cs.flatMap numbers) := by
  have hjoiner : isGlue (Clause.joiner connective) = true := by cases connective <;> rfl
  cases cs with
  | nil => cases connective <;> exact Sql.numbered_of_isBare rfl
  | cons c cs =>
    have hbranch : ∀ b ∈ c :: cs, Numbered ("(" ++ b.conditions ++ ")") (numbers b) := by
      intro b hb
      exact (h b hb).parens
    exact ((Sql.numberedList_map hbranch).intercalate hjoiner).parens

namespace Outline

/-- The placeholders of a leaf. -/
def leafNumbers (c : Clause) : List Nat :=
  placeholders c.conditions

/-- The clauses of entries whose leaves leave no quote open. -/
theorem numbered_entries {os : List Outline}
    (h : ∀ o ∈ os, Numbered o.clause.conditions (o.leaves.flatMap leafNumbers)) :
    Numbered (Clause.conjunction (clauses os)).conditions
      ((entryLeaves os).flatMap leafNumbers) := by
  -- each clause is taken with its own placeholders, which are then those of its leaves
  have hclauses : ∀ c ∈ clauses os, Numbered c.conditions (leafNumbers c) := by
    intro c hc
    rw [clauses_eq_map] at hc
    obtain ⟨o, ho, rfl⟩ := List.mem_map.mp hc
    exact ⟨(h o ho).whole, rfl⟩
  have hnumbers : (clauses os).flatMap leafNumbers = (entryLeaves os).flatMap leafNumbers := by
    rw [clauses_eq_map, entryLeaves_eq_flatMap, List.flatMap_map, List.flatMap_assoc]
    apply List.flatMap_congr
    intro o ho
    exact (h o ho).placeholders_eq
  rw [← hnumbers]
  exact numbered_conjunction hclauses

/-- The placeholders of a tree are those of its leaves, in order. -/
theorem numbered_clause {o : Outline} (h : ∀ c ∈ o.leaves, Sql.Whole c.conditions) :
    Numbered o.clause.conditions (o.leaves.flatMap leafNumbers) := by
  induction o with
  | predicate c =>
    rw [clause, leaves, List.flatMap_singleton]
    exact ⟨h c (List.mem_singleton.mpr rfl), rfl⟩
  | group connective branches ih =>
    have hbranch : ∀ os ∈ branches, Numbered (Clause.conjunction (clauses os)).conditions
        ((entryLeaves os).flatMap leafNumbers) := by
      intro os hos
      apply numbered_entries
      intro o ho
      exact ih os hos o ho fun c hc => h c (mem_branchLeaves hos (mem_entryLeaves ho hc))
    have hclauses : ∀ c ∈ branchClauses branches, Numbered c.conditions (leafNumbers c) := by
      intro c hc
      rw [branchClauses_eq_map] at hc
      obtain ⟨os, hos, rfl⟩ := List.mem_map.mp hc
      exact ⟨(hbranch os hos).whole, rfl⟩
    have hnumbers : (branchClauses branches).flatMap leafNumbers
        = (branchLeaves branches).flatMap leafNumbers := by
      rw [branchClauses_eq_map, branchLeaves_eq_flatMap, List.flatMap_map, List.flatMap_assoc]
      apply List.flatMap_congr
      intro os hos
      exact (hbranch os hos).placeholders_eq
    rw [clause, leaves, ← hnumbers]
    exact numbered_group connective hclauses

end Outline

namespace Criteria

/-- The offsets of a chain leave no number out and use none twice. -/
theorem Chained.numbers {target : Target} {offset : Nat} {ps : List (String × Json)}
    {cs : List Clause} (h : Chained target offset ps cs) :
    cs.flatMap Outline.leafNumbers
      = List.range' (offset + 1) (cs.flatMap Clause.params).length := by
  induction h with
  | nil => rfl
  | @cons offset _ _ _ c _ cs hclause _ ih =>
    have hc : Outline.leafNumbers c = List.range' (offset + 1) c.params.length :=
      (numbered_predicateClause hclause).placeholders_eq
    -- the numbers of the rest start where those of `c` end
    rw [List.flatMap_cons, List.flatMap_cons, hc, ih, List.length_append,
      Nat.add_right_comm offset, List.range'_append_1]

theorem Chained.whole {target : Target} {offset : Nat} {ps : List (String × Json)}
    {cs : List Clause} (h : Chained target offset ps cs) :
    ∀ c ∈ cs, Sql.Whole c.conditions := by
  intro c hc
  obtain ⟨siblings, offset', key, value, -, hclause⟩ := h.exists_predicate hc
  exact (numbered_predicateClause hclause).whole

/-- Compiled criteria have the placeholders after the offset, one for each
parameter. -/
theorem numbered_compile {target : Target} {offset : Nat} {criteria : Criteria} {clause : Clause}
    (h : compile target offset criteria = .ok clause) :
    Numbered clause.conditions (List.range' (offset + 1) clause.params.length) := by
  obtain ⟨os, hos, rfl⟩ := compile_eq_ok_iff.mp h
  have hchain := chained_of_outlines hos
  have hnumbered := Outline.numbered_entries fun o ho =>
    Outline.numbered_clause fun c hc => hchain.whole c (Outline.mem_entryLeaves ho hc)
  rwa [hchain.numbers, ← Outline.params_clauses, ← Outline.params_conjunction] at hnumbered

end Criteria

/-! ### What is bound -/

/-- What a predicate on a column binds: nothing where its value is written out,
the items of a list under equality, both bounds, a list as one array literal,
and otherwise the value itself. -/
def Operation.bound (o : Operation) (value : Json) : List Json :=
  match o.rule, value with
  | some .equality, .null => []
  | some .equality, .bool _ => []
  | some .equality, .arr items => items
  | some .is, _ => []
  | some .between, .arr bounds => bounds
  | some .arrayLiteral, .arr items => [.str (ArrayLiteral.write items)]
  | none, .null => []
  | _, value => [value]

namespace Condition

theorem params_identity {c c' : Condition} (h : c.identity = .ok c') : c'.params = c.params := by
  unfold identity at h
  split at h
  · cases h
  · obtain rfl := Except.ok.inj h
    rfl

theorem params_membership {c c' : Condition} {items : List Json} (hv : c.value = .arr items)
    (h : c.membership = .ok c') : c'.params = c.params ++ items := by
  unfold membership at h
  rw [hv] at h
  cases items with
  | nil =>
    obtain rfl := Except.ok.inj h
    exact (List.append_nil c.params).symm
  | cons item items =>
    obtain rfl := Except.ok.inj h
    rfl

/-- A predicate on a column binds what its operation says. -/
theorem params_compileColumn {c c' : Condition} (h : c.compileColumn = .ok c') :
    c'.params = c.params ++ c.operation.bound c.value := by
  unfold compileColumn at h
  unfold Operation.bound
  rcases hrule : c.operation.rule with - | rule
  · -- without a rule only null is written out
    rw [hrule] at h
    obtain rfl := Except.ok.inj h
    rcases hv : c.value with - | b | x | s | items | members
    · exact (List.append_nil c.params).symm
    all_goals rfl
  · rw [hrule] at h
    cases rule with
    | equality =>
      replace h : c.equality = .ok c' := h
      unfold equality at h
      rcases hv : c.value with - | b | x | s | items | members
      · rw [hv] at h
        exact (params_identity h).trans (List.append_nil c.params).symm
      · rw [hv] at h
        exact (params_identity h).trans (List.append_nil c.params).symm
      · rw [hv] at h
        obtain rfl := Except.ok.inj h
        rfl
      · rw [hv] at h
        obtain rfl := Except.ok.inj h
        rfl
      · rw [hv] at h
        exact params_membership hv h
      · rw [hv] at h
        obtain rfl := Except.ok.inj h
        rfl
    | between =>
      replace h : c.between = .ok c' := h
      unfold between at h
      split at h
      · next low high hv =>
        obtain rfl := Except.ok.inj h
        rw [hv]
        rfl
      · cases h
    | is => exact (params_identity h).trans (List.append_nil c.params).symm
    | arrayLiteral =>
      replace h : Except.ok c.arrayLiteral = .ok c' := h
      obtain rfl := Except.ok.inj h
      unfold arrayLiteral
      rcases hv : c.value with - | b | x | s | items | members <;> rfl

end Condition

namespace Criteria

/-- What the predicate of a key binds in a table. -/
def boundBy (key : String) (value : Json) : List Json :=
  (Operation.resolve (Key.parse key).operatorText).bound value

theorem params_predicateClause {target : Target} (htable : target.storage = .table)
    {siblings : Criteria} {offset : Nat} {key : String} {value : Json} {clause : Clause}
    (h : predicateClause target siblings offset key value = .ok clause) :
    clause.params = boundBy key value := by
  have hcolumn : ¬UsesBody target key := by
    rintro ⟨hdocument, -⟩
    rw [htable] at hdocument
    cases hdocument
  rw [predicateClause_column hcolumn] at h
  obtain ⟨c, hc, rfl⟩ := map_eq_ok_iff.mp h
  exact Condition.params_compileColumn hc

theorem Chained.params {target : Target} (htable : target.storage = .table) {offset : Nat}
    {ps : List (String × Json)} {cs : List Clause} (h : Chained target offset ps cs) :
    cs.flatMap Clause.params = ps.flatMap fun p => boundBy p.1 p.2 := by
  induction h with
  | nil => rfl
  | cons hclause _ ih =>
    rw [List.flatMap_cons, List.flatMap_cons, ih, params_predicateClause htable hclause]

/-! ### Compiled criteria -/

/-- The placeholders of compiled criteria are the numbers after the offset, one
for each parameter, from left to right.  In a table the parameters are what the
predicates bind, in order. -/
theorem placeholders_compile {target : Target} {offset : Nat} {criteria : Criteria}
    {clause : Clause} (h : compile target offset criteria = .ok clause) :
    placeholders clause.conditions = List.range' (offset + 1) clause.params.length
      ∧ (target.storage = .table →
        clause.params = (predicates criteria).flatMap fun p => boundBy p.1 p.2) := by
  refine ⟨(numbered_compile h).placeholders_eq, ?_⟩
  intro htable
  obtain ⟨os, hos, rfl⟩ := compile_eq_ok_iff.mp h
  rw [Outline.params_conjunction, Outline.params_clauses]
  exact (chained_of_outlines hos).params htable

/-- A list and a value under a nested group, after one parameter. -/
theorem placeholders_compile_nested :
    compile ⟨.table, []⟩ 1
        [.predicate "a" (.arr [.str "x", .str "y"]), .group .any [[.predicate "b >" (.str "z")]]]
      = .ok ⟨"\"a\" IN ($2, $3) AND ((\"b\" > $4))", [.str "x", .str "y", .str "z"]⟩
    ∧ placeholders "\"a\" IN ($2, $3) AND ((\"b\" > $4))" = [2, 3, 4]
    ∧ [.str "x", .str "y", .str "z"]
      = boundBy "a" (.arr [.str "x", .str "y"]) ++ boundBy "b >" (.str "z") := by
  have ha : Key.parse "a" = ⟨"a", [], none, ""⟩ := by decide +kernel
  have hb : Key.parse "b >" = ⟨"b", [], none, ">"⟩ := by decide +kernel
  have hlist : ∀ siblings, predicateClause ⟨.table, []⟩ siblings 1 "a" (.arr [.str "x", .str "y"])
      = .ok ⟨"\"a\" IN ($2, $3)", [.str "x", .str "y"]⟩ := by
    intro siblings
    rw [predicateClause, ha]
    rfl
  have hvalue : ∀ siblings, predicateClause ⟨.table, []⟩ siblings 3 "b >" (.str "z")
      = .ok ⟨"\"b\" > $4", [.str "z"]⟩ := by
    intro siblings
    rw [predicateClause, hb]
    rfl
  have h : compile ⟨.table, []⟩ 1
      [.predicate "a" (.arr [.str "x", .str "y"]), .group .any [[.predicate "b >" (.str "z")]]]
      = .ok ⟨"\"a\" IN ($2, $3) AND ((\"b\" > $4))", [.str "x", .str "y", .str "z"]⟩ := by
    rw [compile, entryClauses, entryClause, hlist]
    show ((entryClauses ⟨.table, []⟩ _ 3 _ >>= _) >>= _) = _
    rw [entryClauses, entryClause, branchClauses, entryClauses, entryClause, hvalue]
    rfl
  obtain ⟨hnumbers, hparams⟩ := placeholders_compile h
  refine ⟨h, hnumbers, (hparams rfl).trans ?_⟩
  simp only [predicates, entryPredicates, branchPredicates, List.append_nil, List.flatMap_append,
    List.flatMap_singleton]

end Criteria

end CriteriaSql
