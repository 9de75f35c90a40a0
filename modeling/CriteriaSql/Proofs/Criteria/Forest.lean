/-
CriteriaSql/Proofs/Criteria/Forest.lean

How the parentheses of compiled criteria match.

The forest of a tree is put together in the way of its text: entries stand side
by side, and a group is one pair of parentheses with one pair for each branch
(`Outline.forest`).  As long as the texts of the predicates nest, the
parentheses of the whole are those of the groups and those inside the texts of
the predicates (`Outline.nested_clause`).
-/
import CriteriaSql.Proofs.Criteria.Outline
import CriteriaSql.Proofs.Key.Operand

namespace CriteriaSql

open Sql (Nest Nested flat isGlue isFlat nests tokens)

/-! ### Clauses that are put together -/

/-- The forest of entries side by side. -/
def conjunctionForest : List (List Nest) → List Nest
  | [] => flat "TRUE"
  | fs => (flat " AND ").intercalate fs

/-- The forest of a group: parentheses around all, and around each branch. -/
def groupForest (connective : Connective) : List (List Nest) → List Nest
  | [] => flat (Clause.emptyGroup connective).conditions
  | fs => [.parens ((flat (Clause.joiner connective)).intercalate (fs.map fun f => [.parens f]))]

theorem nested_conjunction {forest : Clause → List Nest} {cs : List Clause}
    (h : ∀ c ∈ cs, Nested c.conditions (forest c)) :
    Nested (Clause.conjunction cs).conditions (conjunctionForest (cs.map forest)) := by
  cases cs with
  | nil => exact Sql.nested_of_unquoted (by decide)
  | cons c cs =>
    have hand : isGlue " AND " = true := rfl
    exact Sql.nested_intercalate hand (by decide) h

theorem nested_group {forest : Clause → List Nest} {cs : List Clause} (connective : Connective)
    (h : ∀ c ∈ cs, Nested c.conditions (forest c)) :
    Nested (Clause.group connective cs).conditions (groupForest connective (cs.map forest)) := by
  have hjoiner : isGlue (Clause.joiner connective) = true := by cases connective <;> rfl
  have hflat : isFlat (Clause.joiner connective) = true := by cases connective <;> decide
  cases cs with
  | nil => cases connective <;> exact Sql.nested_of_unquoted (by decide)
  | cons c cs =>
    have hbranch : ∀ b ∈ c :: cs, Nested ("(" ++ b.conditions ++ ")") [.parens (forest b)] := by
      intro b hb
      exact (h b hb).parens
    have hforest : groupForest connective ((c :: cs).map forest)
        = [.parens ((flat (Clause.joiner connective)).intercalate
            ((c :: cs).map fun b => [.parens (forest b)]))] := by
      simp only [List.map_cons, groupForest, List.map_map, Function.comp_def]
    rw [hforest]
    exact (Sql.nested_intercalate hjoiner hflat hbranch).parens

/-! ### Trees -/

/-- The forest of a text, if it has one. -/
def leafForest (c : Clause) : List Nest :=
  (nests (tokens c.conditions)).getD []

theorem Sql.Nested.leafForest_eq {c : Clause} {f : List Nest} (h : Nested c.conditions f) :
    leafForest c = f := by
  rw [leafForest, h.nests_eq, Option.getD_some]

theorem Sql.Nested.leaf {c : Clause} {f : List Nest} (h : Nested c.conditions f) :
    Nested c.conditions (leafForest c) := by
  rw [h.leafForest_eq]
  exact h

namespace Outline

mutual

/-- The forest of an entry. -/
def forest : Outline → List Nest
  | .predicate c => leafForest c
  | .group connective branches => groupForest connective (branchForests branches)

/-- The forests of entries. -/
def entryForests : List Outline → List (List Nest)
  | [] => []
  | o :: os => o.forest :: entryForests os

/-- The forests of branches. -/
def branchForests : List (List Outline) → List (List Nest)
  | [] => []
  | os :: branches => conjunctionForest (entryForests os) :: branchForests branches

end

theorem entryForests_eq_map (os : List Outline) : entryForests os = os.map forest := by
  induction os with
  | nil => rfl
  | cons o os ih => rw [entryForests, ih, List.map_cons]

theorem branchForests_eq_map (branches : List (List Outline)) :
    branchForests branches = branches.map fun os => conjunctionForest (entryForests os) := by
  induction branches with
  | nil => rfl
  | cons os branches ih => rw [branchForests, ih, List.map_cons]

/-- Entries whose texts nest. -/
theorem nested_entries {os : List Outline} (h : ∀ o ∈ os, Nested o.clause.conditions o.forest) :
    Nested (Clause.conjunction (clauses os)).conditions
      (conjunctionForest (entryForests os)) := by
  have hclauses : ∀ c ∈ clauses os, Nested c.conditions (leafForest c) := by
    intro c hc
    rw [clauses_eq_map] at hc
    obtain ⟨o, ho, rfl⟩ := List.mem_map.mp hc
    exact (h o ho).leaf
  have hforests : (clauses os).map leafForest = entryForests os := by
    rw [clauses_eq_map, entryForests_eq_map, List.map_map]
    exact List.map_congr_left fun o ho => (h o ho).leafForest_eq
  rw [← hforests]
  exact nested_conjunction hclauses

/-- The forest of a tree is that of its text, when the texts of its predicates
nest. -/
theorem nested_clause {o : Outline} (h : ∀ c ∈ o.leaves, Nested c.conditions (leafForest c)) :
    Nested o.clause.conditions o.forest := by
  induction o with
  | predicate c => exact h c (List.mem_singleton.mpr rfl)
  | group connective branches ih =>
    have hbranch : ∀ os ∈ branches, Nested (Clause.conjunction (clauses os)).conditions
        (conjunctionForest (entryForests os)) := by
      intro os hos
      apply nested_entries
      intro o ho
      exact ih os hos o ho fun c hc => h c (mem_branchLeaves hos (mem_entryLeaves ho hc))
    -- a branch is to its group what a predicate is to an entry
    have hclauses : ∀ c ∈ branchClauses branches, Nested c.conditions (leafForest c) := by
      intro c hc
      rw [branchClauses_eq_map] at hc
      obtain ⟨os, hos, rfl⟩ := List.mem_map.mp hc
      exact (hbranch os hos).leaf
    have hforests : (branchClauses branches).map leafForest = branchForests branches := by
      rw [branchClauses_eq_map, branchForests_eq_map, List.map_map]
      exact List.map_congr_left fun os hos => (hbranch os hos).leafForest_eq
    rw [forest, clause, ← hforests]
    exact nested_group connective hclauses

end Outline

/-! ### Predicates -/

theorem nested_text (k : Key) :
    Nested ("(" ++ k.bodyPath ++ ")") [.parens (flat k.bodyPath)] :=
  (Key.nested_of_plainText (Key.plainText_bodyPath k)).parens

theorem nested_typed (k : Key) {type : String}
    (htype : type = "boolean" ∨ type = "decimal" ∨ type = "timestamptz") :
    Nested ("(" ++ k.bodyPath ++ ")::" ++ type)
      ([.parens (flat k.bodyPath)] ++ flat "::" ++ flat type) := by
  have hcast : isGlue "::" = true := rfl
  have hname : Nested type (flat type) := by
    rcases htype with rfl | rfl | rfl <;> exact Sql.nested_of_unquoted (by decide)
  -- the parenthesis belongs to the text, and only the colons join it with the type
  have hsplit : (")::" : String) = ")" ++ "::" := rfl
  rw [hsplit, ← String.append_assoc]
  exact (nested_text k).join hcast (by decide) hname

/-- Operands nest when the cast of their key is self-contained. -/
theorem Operand.exists_nested {k : Key} (hk : k.CastContained) {field : String}
    (h : Operand k field) : ∃ f, Nested field f := by
  cases h with
  | column =>
    obtain ⟨f, hf⟩ := ((Key.selfContained_field_iff k).mpr hk).exists_nests
    exact ⟨f, (Key.numbered_field k).whole, hf⟩
  | body => exact ⟨_, Key.nested_of_plainText (Sql.plainText_write .identifier "body")⟩
  | cast _ =>
    obtain ⟨f, hf⟩ := ((Key.selfContained_bodyField_iff k).mpr hk).exists_nests
    exact ⟨f, (Key.numbered_bodyField k).whole, hf⟩
  | typed type htype => exact ⟨_, nested_typed k htype⟩
  | text => exact ⟨_, nested_text k⟩

/-- The operators of comparisons, and of membership in a list. -/
def Operation.listed : List String :=
  "IN" :: "NOT IN" :: comparisons

theorem nested_operator {operator : String} (h : operator ∈ Operation.listed) :
    Nested operator (flat operator) := by
  have hplain : ∀ o ∈ Operation.listed, Sql.Unquoted o ∧ isFlat o = true := by decide
  exact Sql.nested_of_unquoted (hplain operator h)

theorem nested_placeholder (n : Nat) : Nested (placeholder n) (flat (placeholder n)) := by
  refine Sql.nested_flat (Sql.whole_placeholder n) ?_
  rw [isFlat, Sql.tokens_placeholder]
  rfl

/-- The forests of right sides: a constant, a placeholder, or a list. -/
inductive RightSide : List Nest → Prop
  | constant {text : String} (htext : text = "NULL" ∨ text = "TRUE" ∨ text = "FALSE") :
      RightSide (flat text)
  | value (n : Nat) : RightSide (flat (placeholder n))
  | members (inside : List Nest) : RightSide [.parens inside]

/-- The forest of an operand, an operator and a right side. -/
def comparisonForest (field : List Nest) (operator : String) (right : List Nest) : List Nest :=
  field ++ flat " " ++ flat operator ++ flat " " ++ right

/-- The forests of the text of a fragment on an operand with the forest `f`. -/
inductive FragmentForest (f : List Nest) (text : String) : List Nest → Prop
  | truth (htext : text = "TRUE" ∨ text = "FALSE") : FragmentForest f text (flat text)
  | comparison {operator : String} (hop : operator ∈ Operation.listed) {r : List Nest}
      (hr : RightSide r) : FragmentForest f text (comparisonForest f operator r)
  | bounds (n m : Nat) : FragmentForest f text (comparisonForest f "BETWEEN"
      (flat (placeholder n) ++ flat " AND " ++ flat (placeholder m)))

theorem nested_comparison {field operator right : String} {f r : List Nest}
    (hfield : Nested field f) (hop : Nested operator (flat operator)) (hright : Nested right r) :
    Nested (field ++ " " ++ operator ++ " " ++ right) (comparisonForest f operator r) := by
  have hblank : isGlue " " = true := rfl
  exact (hfield.join hblank (by decide) hop).join hblank (by decide) hright

theorem nested_constant {text : String} (h : text = "NULL" ∨ text = "TRUE" ∨ text = "FALSE") :
    Nested text (flat text) := by
  rcases h with rfl | rfl | rfl <;> exact Sql.nested_of_unquoted (by decide)

/-- A fragment nests when its operand does. -/
theorem Fragment.nested {n : Nat} {field : String} {f : List Nest} {clause : Clause}
    (hfield : Nested field f) (h : Fragment n field clause) :
    ∃ g, Nested clause.conditions g ∧ FragmentForest f clause.conditions g := by
  cases h with
  | truth htext => exact ⟨_, nested_constant (Or.inr htext), .truth htext⟩
  | constant hop htext =>
    have hlisted := List.mem_cons_of_mem "IN" (List.mem_cons_of_mem "NOT IN" hop)
    exact ⟨_, nested_comparison hfield (nested_operator hlisted) (nested_constant htext),
      .comparison hlisted (.constant htext)⟩
  | value hop v =>
    have hlisted := List.mem_cons_of_mem "IN" (List.mem_cons_of_mem "NOT IN" hop)
    exact ⟨_, nested_comparison hfield (nested_operator hlisted) (nested_placeholder n),
      .comparison hlisted (.value n)⟩
  | bounds low high =>
    have hand : isGlue " AND " = true := rfl
    have hbetween : Nested "BETWEEN" (flat "BETWEEN") := Sql.nested_of_unquoted (by decide)
    have hright := (nested_placeholder n).join hand (by decide) (nested_placeholder (n + 1))
    exact ⟨_, nested_comparison hfield hbetween hright, .bounds n (n + 1)⟩
  | @members operator hop items hitems =>
    have hlisted : operator ∈ Operation.listed := by
      rcases hop with rfl | rfl
      · exact List.mem_cons_self
      · exact List.mem_cons_of_mem "IN" List.mem_cons_self
    have hcomma : isGlue ", " = true := rfl
    have hone : ∀ i ∈ List.range items.length,
        Nested (placeholder (n + i)) (flat (placeholder (n + i))) := by
      intro i _
      exact nested_placeholder (n + i)
    have hlist := (Sql.nested_intercalate hcomma (by decide) hone).parens
    exact ⟨_, nested_comparison hfield (nested_operator hlisted) hlist,
      .comparison hlisted (.members _)⟩

namespace Criteria

theorem nested_predicateClause {target : Target} {siblings : Criteria} {offset : Nat}
    {key : String} {value : Json} {clause : Clause} (hkey : (Key.parse key).CastContained)
    (h : predicateClause target siblings offset key value = .ok clause) :
    Nested clause.conditions (leafForest clause) := by
  obtain ⟨field, hoperand, hfragment⟩ := fragment_of_predicateClause h
  obtain ⟨f, hf⟩ := hoperand.exists_nested hkey
  obtain ⟨g, hg, -⟩ := hfragment.nested hf
  exact hg.leaf

/-- The parentheses of compiled criteria are those of the groups and those
inside the texts of the predicates, when the casts of the keys are
self-contained. -/
theorem nested_outlines {target : Target} {offset : Nat} {criteria : Criteria}
    {os : List Outline} (hkeys : ∀ p ∈ predicates criteria, (Key.parse p.1).CastContained)
    (h : outlines target criteria offset criteria = .ok os) :
    Nested (Clause.conjunction (Outline.clauses os)).conditions
      (conjunctionForest (Outline.entryForests os)) := by
  apply Outline.nested_entries
  intro o ho
  apply Outline.nested_clause
  intro c hc
  -- every leaf is a compiled predicate, so that its key is one of the criteria
  obtain ⟨siblings, offset', key, value, hmem, hclause⟩ :=
    (chained_of_outlines h).exists_predicate (Outline.mem_entryLeaves ho hc)
  exact nested_predicateClause (hkeys _ hmem) hclause

end Criteria

end CriteriaSql
