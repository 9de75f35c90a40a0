/-
CriteriaSql/Proofs/Criteria/Shift.lean

Criteria compiled after more parameters.

The offset of a condition goes into its text as the numbers of its placeholders
and nowhere else.  So a value rule that starts `k` numbers later (`Condition.later`)
yields the clause of the same rule with its placeholders shifted by `k`, or the
same error; there is one lemma for each rule (`map_clause_identity` and so on),
and one for each kind of storage.  Entries and branches thread the number of
parameters, which the shift does not change, so the same is true of the whole
tree.

Main result: `compile_add`.
-/
import CriteriaSql.Proofs.Criteria.Placeholders
import CriteriaSql.Proofs.Sql.Shift

namespace CriteriaSql

open Sql (Numbered Whole isGlue)

/-- A clause with `k` added to the numbers of its placeholders. -/
def Clause.shift (k : Nat) (c : Clause) : Clause :=
  ⟨Sql.shift k c.conditions, c.params⟩

/-! ### Conditions -/

namespace Condition

/-- The operand and the operator of a condition leave no quote open and hold no
placeholder. -/
structure Settled (c : Condition) : Prop where
  field : Numbered c.field []
  operator : Numbered c.operation.operator []

/-- The condition with its next placeholder `k` numbers later. -/
def later (k : Nat) (c : Condition) : Condition :=
  { c with offset := c.offset + k }

section

variable (k : Nat) (c : Condition)

theorem value_later : (c.later k).value = c.value := rfl

theorem operation_later : (c.later k).operation = c.operation := rfl

theorem isPlainEquality_later : (c.later k).isPlainEquality = c.isPlainEquality := rfl

end

variable {k : Nat} {c : Condition}

theorem Settled.bind (h : c.Settled) (values : List Json) : (c.bind values).Settled :=
  ⟨h.field, h.operator⟩

theorem Settled.withOperator (h : c.Settled) {operator : String}
    (hop : Sql.isBare operator = true) : (c.withOperator operator).Settled :=
  ⟨h.field, Sql.numbered_of_isBare hop⟩

/-- Of a finished condition the right side alone is shifted. -/
theorem shift_clause_withRight (h : c.Settled) (right : String) :
    (c.withRight right).clause.shift k = (c.withRight (Sql.shift k right)).clause := by
  have hblank : isGlue " " = true := rfl
  have hleft : Numbered (c.field ++ " " ++ c.operation.operator) [] :=
    h.field.join hblank h.operator
  show Clause.mk (Sql.shift k (c.withRight right).predicate) c.params
    = Clause.mk (c.withRight (Sql.shift k right)).predicate c.params
  by_cases hop : c.operation.operator = ""
  · -- a condition without an operator is its field
    have hfield : ∀ r, (c.withRight r).predicate = c.field := fun r => if_pos hop
    rw [hfield, hfield, h.field.shift_eq]
  · rw [predicate_withRight hop, predicate_withRight hop, hleft.whole.shift_glue_append hblank,
      hleft.shift_eq]

theorem shift_clause_constant (h : c.Settled) {text : String} (htext : Sql.isBare text = true) :
    (c.withRight text).clause.shift k = (c.withRight text).clause := by
  have hnumbered : Numbered text [] := Sql.numbered_of_isBare htext
  rw [shift_clause_withRight h, hnumbered.shift_eq]

theorem clause_bindOne_later (h : c.Settled) (v : Json) :
    ((c.later k).bindOne v).clause = (c.bindOne v).clause.shift k := by
  show _ = ((c.bind [v]).withRight (placeholder c.offset)).clause.shift k
  rw [shift_clause_withRight (h.bind [v]), Sql.shift_placeholder]
  rfl

/-- A list of placeholders is shifted one by one. -/
theorem map_shift_placeholders (n : Nat) :
    (c.placeholders n).map (Sql.shift k) = (c.later k).placeholders n := by
  rw [placeholders, placeholders, List.map_map]
  apply List.map_congr_left
  intro i _
  show Sql.shift k (placeholder (c.offset + i)) = placeholder (c.offset + k + i)
  rw [Sql.shift_placeholder, Nat.add_right_comm]

/-! ### Value rules -/

theorem isBare_of_constant? {v : Json} {text : String} (h : constant? v = some text) :
    Sql.isBare text = true := by
  rcases constant?_eq_some h with rfl | rfl | rfl <;> rfl

theorem map_clause_identity (h : c.Settled) :
    (c.later k).identity.map clause = (c.identity.map clause).map (Clause.shift k) := by
  unfold identity
  rw [value_later]
  rcases htext : constant? c.value with - | text
  · rfl
  · have hbare := isBare_of_constant? htext
    have hop : Sql.isBare
        (if c.operation.operator = "=" ∨ c.operation.operator = "IS" then "IS" else "IS NOT")
          = true := by
      split <;> rfl
    exact congrArg Except.ok (shift_clause_constant (h.withOperator hop) hbare).symm

theorem map_clause_between (h : c.Settled) :
    (c.later k).between.map clause = (c.between.map clause).map (Clause.shift k) := by
  have hand : isGlue " AND " = true := rfl
  unfold between
  rw [value_later]
  split
  · next low high _ =>
    have hlow : Whole (placeholder c.offset) := Sql.whole_placeholder _
    refine congrArg Except.ok ?_
    rw [shift_clause_withRight (h.bind [low, high]), hlow.shift_glue_append hand,
      Sql.shift_placeholder, Sql.shift_placeholder, Nat.add_right_comm]
    rfl
  · rfl

theorem map_clause_membership (h : c.Settled) :
    (c.later k).membership.map clause = (c.membership.map clause).map (Clause.shift k) := by
  have hcomma : isGlue ", " = true := rfl
  unfold membership
  dsimp only
  rw [value_later]
  split
  · -- the constant stands in the field
    have hconstant : Sql.isBare (if c.operation.operator ≠ "=" then "TRUE" else "FALSE") = true := by
      split <;> rfl
    refine congrArg Except.ok ?_
    show Clause.mk (if c.operation.operator ≠ "=" then "TRUE" else "FALSE") c.params
      = Clause.mk (Sql.shift k (if c.operation.operator ≠ "=" then "TRUE" else "FALSE")) c.params
    rw [(Sql.numbered_of_isBare hconstant).shift_eq]
  · next items _ _ =>
    have hop : Sql.isBare (if c.operation.operator ≠ "=" then "NOT IN" else "IN") = true := by
      split <;> rfl
    have hone : ∀ t ∈ c.placeholders items.length, Whole t := by
      intro t ht
      obtain ⟨i, -, rfl⟩ := List.mem_map.mp ht
      exact Sql.whole_placeholder _
    have hlist : Whole (", ".intercalate (c.placeholders items.length)) :=
      ((Sql.numberedList_placeholders c.offset items.length).intercalate hcomma).whole
    have hright : Sql.shift k ("(" ++ ", ".intercalate (c.placeholders items.length) ++ ")")
        = "(" ++ ", ".intercalate ((c.later k).placeholders items.length) ++ ")" := by
      rw [hlist.shift_parens, Sql.shift_intercalate hcomma hone, map_shift_placeholders]
    refine congrArg Except.ok ?_
    rw [shift_clause_withRight ((h.withOperator hop).bind items), hright]
    rfl
  · rfl

theorem map_clause_equality (h : c.Settled) :
    (c.later k).equality.map clause = (c.equality.map clause).map (Clause.shift k) := by
  unfold equality
  rw [value_later]
  split
  · exact map_clause_identity h
  · exact map_clause_identity h
  · exact map_clause_membership h
  · exact congrArg Except.ok (clause_bindOne_later h c.value)

theorem clause_arrayLiteral_later (h : c.Settled) :
    (c.later k).arrayLiteral.clause = c.arrayLiteral.clause.shift k := by
  unfold arrayLiteral
  rw [value_later]
  split <;> exact clause_bindOne_later h _

theorem map_clause_compileColumn (h : c.Settled) :
    (c.later k).compileColumn.map clause = (c.compileColumn.map clause).map (Clause.shift k) := by
  unfold compileColumn
  rw [operation_later, value_later]
  cases c.operation.rule with
  | some rule =>
    cases rule with
    | equality => exact map_clause_equality h
    | between => exact map_clause_between h
    | is => exact map_clause_identity h
    | arrayLiteral => exact congrArg Except.ok (clause_arrayLiteral_later h)
  | none =>
    refine congrArg Except.ok ?_
    split
    · exact (shift_clause_constant h rfl).symm
    · exact clause_bindOne_later h c.value

theorem clause_containment_later (document : Json) :
    ((c.later k).containment document).clause = (c.containment document).clause.shift k := by
  have hop : Sql.isBare "@>" = true := rfl
  have h : Settled { c with field := Text.quoteIdent "body", operation := ⟨"@>", none⟩ } :=
    ⟨Sql.numbered_quoteIdent "body", Sql.numbered_of_isBare hop⟩
  exact clause_bindOne_later h document

/-- What a condition over the body compares does not depend on its offset. -/
theorem map_clause_compileBody (h : c.Settled) (group : Json) :
    ((c.later k).compileBody group).map clause
      = ((c.compileBody group).map clause).map (Clause.shift k) := by
  have hextracted : Settled { c with field := c.extracted } :=
    ⟨(operand_extracted c).numbered, h.operator⟩
  unfold compileBody
  rw [value_later, isPlainEquality_later]
  split
  · exact congrArg Except.ok (clause_containment_later group)
  · split
    · exact congrArg Except.ok (clause_containment_later _)
    · exact map_clause_compileColumn hextracted

end Condition

/-! ### Clauses that are put together -/

namespace Clause

theorem allParams_map_shift (k : Nat) (cs : List Clause) :
    allParams (cs.map (shift k)) = allParams cs := by
  rw [allParams, allParams, List.flatMap_map]
  rfl

/-- Joined texts of clauses are shifted clause by clause. -/
theorem shift_conditions {g : String} (hg : isGlue g = true) {cs : List Clause}
    (h : ∀ c ∈ cs, Whole c.conditions) (k : Nat) :
    Sql.shift k (g.intercalate (cs.map conditions))
      = g.intercalate ((cs.map (shift k)).map conditions) := by
  rw [Sql.shift_intercalate hg (by simpa using h), List.map_map, List.map_map]
  rfl

theorem shift_conjunction {cs : List Clause} (h : ∀ c ∈ cs, Whole c.conditions) (k : Nat) :
    (conjunction cs).shift k = conjunction (cs.map (shift k)) := by
  cases cs with
  | nil =>
    have htrue : Numbered "TRUE" [] := Sql.numbered_of_isBare rfl
    exact congrArg (Clause.mk · []) (htrue.shift_eq k)
  | cons c cs =>
    have hand : isGlue " AND " = true := rfl
    show Clause.mk (Sql.shift k (" AND ".intercalate ((c :: cs).map conditions)))
      (allParams (c :: cs)) = _
    rw [shift_conditions hand h, ← allParams_map_shift k (c :: cs)]
    rfl

theorem shift_group (connective : Connective) {cs : List Clause}
    (h : ∀ c ∈ cs, Whole c.conditions) (k : Nat) :
    (group connective cs).shift k = group connective (cs.map (shift k)) := by
  cases cs with
  | nil =>
    have hempty : Numbered (emptyGroup connective).conditions [] := by
      cases connective <;> exact Sql.numbered_of_isBare rfl
    show Clause.mk (Sql.shift k (emptyGroup connective).conditions) (emptyGroup connective).params
      = emptyGroup connective
    rw [hempty.shift_eq]
  | cons c cs =>
    have hjoiner : isGlue (joiner connective) = true := by
      cases connective <;> rfl
    -- the branches with their parentheses
    have hbranch : ∀ t ∈ (c :: cs).map fun b => "(" ++ b.conditions ++ ")", Whole t := by
      intro t ht
      obtain ⟨b, hb, rfl⟩ := List.mem_map.mp ht
      exact (Numbered.parens ⟨h b hb, rfl⟩).whole
    have hone : ((c :: cs).map fun b => "(" ++ b.conditions ++ ")").map (Sql.shift k)
        = ((c :: cs).map (shift k)).map fun b => "(" ++ b.conditions ++ ")" := by
      rw [List.map_map, List.map_map]
      apply List.map_congr_left
      intro b hb
      exact (h b hb).shift_parens k
    have hjoined : Whole ((joiner connective).intercalate
        ((c :: cs).map fun b => "(" ++ b.conditions ++ ")")) :=
      ((Sql.numberedList_map fun b hb =>
        Numbered.parens ⟨h b hb, rfl⟩).intercalate hjoiner).whole
    show Clause.mk (Sql.shift k ("(" ++ (joiner connective).intercalate
      ((c :: cs).map fun b => "(" ++ b.conditions ++ ")") ++ ")")) (allParams (c :: cs)) = _
    rw [hjoined.shift_parens, Sql.shift_intercalate hjoiner hbranch, hone,
      ← allParams_map_shift k (c :: cs)]
    rfl

end Clause

/-! ### Criteria -/

namespace Criteria

open Condition (Settled later)

theorem isBare_operator {o : Operation} (ho : o ∈ Operation.registered.map Prod.snd) :
    Sql.isBare o.operator = true := by
  revert o
  decide

theorem settled_startOf (key : String) (value : Json) (offset : Nat) :
    (startOf key value offset).Settled where
  field := by
    rw [field_startOf]
    exact Key.numbered_field _
  operator := Sql.numbered_of_isBare (isBare_operator (operation_startOf_mem key value offset))

theorem startOf_add (key : String) (value : Json) (offset k : Nat) :
    startOf key value (offset + k) = (startOf key value offset).later k := by
  simp [startOf, Condition.start, later, Nat.add_right_comm]

variable (target : Target) (k : Nat)

/-- A predicate that is compiled `k` parameters later. -/
theorem predicateClause_add (siblings : Criteria) (offset : Nat) (key : String) (value : Json) :
    predicateClause target siblings (offset + k) key value
      = (predicateClause target siblings offset key value).map (Clause.shift k) := by
  have hsettled := settled_startOf key value offset
  by_cases hbody : UsesBody target key
  · rw [predicateClause_body hbody, predicateClause_body hbody, startOf_add]
    exact Condition.map_clause_compileBody hsettled _
  · rw [predicateClause_column hbody, predicateClause_column hbody, startOf_add]
    exact Condition.map_clause_compileColumn hsettled

section Whole

variable {target}

/-- The clauses of entries leave no quote open. -/
theorem whole_of_entryClauses {siblings : Criteria} {offset : Nat} {entries : List Criterion}
    {cs : List Clause} (h : entryClauses target siblings offset entries = .ok cs) :
    ∀ c ∈ cs, Whole c.conditions := by
  rw [entryClauses_eq] at h
  obtain ⟨os, hos, rfl⟩ := map_eq_ok_iff.mp h
  have hchain := chained_of_outlines hos
  intro c hc
  rw [Outline.clauses_eq_map] at hc
  obtain ⟨o, ho, rfl⟩ := List.mem_map.mp hc
  exact (Outline.numbered_clause fun c hc => hchain.whole c (Outline.mem_entryLeaves ho hc)).whole

theorem whole_of_branchClauses {offset : Nat} {branches : List (List Criterion)}
    {cs : List Clause} (h : branchClauses target offset branches = .ok cs) :
    ∀ c ∈ cs, Whole c.conditions := by
  induction branches generalizing offset cs with
  | nil =>
    obtain rfl := Except.ok.inj h
    exact fun c hc => absurd hc List.not_mem_nil
  | cons branch branches ih =>
    rw [branchClauses] at h
    obtain ⟨entries, hentries, h⟩ := bind_eq_ok_iff.mp h
    obtain ⟨rest, hrest, hcs⟩ := bind_eq_ok_iff.mp h
    obtain rfl := Except.ok.inj hcs
    -- a branch has the clause that its entries have as criteria of their own
    have hbranch : compile target offset branch = .ok (Clause.conjunction entries) := by
      rw [compile, hentries]
      rfl
    exact List.forall_mem_cons.mpr ⟨(numbered_compile hbranch).whole, ih hrest⟩

end Whole

mutual

theorem entryClause_add (siblings : Criteria) (offset : Nat) : ∀ entry : Criterion,
    entryClause target siblings (offset + k) entry
      = (entryClause target siblings offset entry).map (Clause.shift k)
  | .predicate key value => by
    rw [entryClause, entryClause]
    exact predicateClause_add target k siblings offset key value
  | .group connective branches => by
    rw [entryClause, entryClause, branchClauses_add offset branches]
    rcases h : branchClauses target offset branches with e | cs
    · rfl
    · exact congrArg Except.ok (Clause.shift_group connective (whole_of_branchClauses h) k).symm

/-- Entries that are compiled `k` parameters later: the number of parameters of
an entry, which the next one starts after, stays. -/
theorem entryClauses_add (siblings : Criteria) (offset : Nat) : ∀ entries : List Criterion,
    entryClauses target siblings (offset + k) entries
      = (entryClauses target siblings offset entries).map (List.map (Clause.shift k))
  | [] => rfl
  | entry :: entries => by
    rw [entryClauses, entryClauses, entryClause_add siblings offset entry]
    rcases entryClause target siblings offset entry with e | c
    · rfl
    · show (entryClauses target siblings (offset + k + c.params.length) entries >>= _)
        = Except.map _ (entryClauses target siblings (offset + c.params.length) entries >>= _)
      rw [Nat.add_right_comm, entryClauses_add siblings _ entries]
      rcases entryClauses target siblings (offset + c.params.length) entries with e | cs <;> rfl

theorem branchClauses_add (offset : Nat) : ∀ branches : List (List Criterion),
    branchClauses target (offset + k) branches
      = (branchClauses target offset branches).map (List.map (Clause.shift k))
  | [] => rfl
  | branch :: branches => by
    rw [branchClauses, branchClauses, entryClauses_add branch offset branch]
    rcases h : entryClauses target branch offset branch with e | entries
    · rfl
    · have hclause := Clause.shift_conjunction (whole_of_entryClauses h) k
      show (branchClauses target
          (offset + k + (Clause.conjunction (entries.map (Clause.shift k))).params.length) branches
            >>= fun rest => pure (Clause.conjunction (entries.map (Clause.shift k)) :: rest))
        = Except.map _ (branchClauses target
          (offset + (Clause.conjunction entries).params.length) branches >>= _)
      rw [← hclause]
      show (branchClauses target
        (offset + k + (Clause.conjunction entries).params.length) branches >>= _) = _
      rw [Nat.add_right_comm, branchClauses_add _ branches]
      rcases branchClauses target (offset + (Clause.conjunction entries).params.length) branches
        with e | cs <;> rfl

end

/-- Criteria that are compiled `k` parameters later have the clause that they
have without them, with its placeholders shifted by `k`, or the same error. -/
theorem compile_add (offset : Nat) (criteria : Criteria) :
    compile target (offset + k) criteria
      = (compile target offset criteria).map (Clause.shift k) := by
  rw [compile, compile, entryClauses_add]
  rcases h : entryClauses target criteria offset criteria with e | cs
  · rfl
  · exact congrArg Except.ok (Clause.shift_conjunction (whole_of_entryClauses h) k).symm

end Criteria

end CriteriaSql
