/-
CriteriaSql/Proofs/Criteria/Predicate.lean

What a compiled predicate looks like.

A predicate compares an operand with what its value becomes.  The operand is an
expression of the key (`Operand`); the whole is a constant, or the operand, an
operator and a right side, which binds exactly the parameters that it has
placeholders for (`Fragment`).

Main result: every clause that `Criteria.predicateClause` yields is a fragment
on an operand of its key, with placeholders from the number after the offset on
(`fragment_of_predicateClause`).  What is true of all fragments is proved from
that, not from the compiler.
-/
import CriteriaSql.Criteria.Where
import CriteriaSql.Proofs.Outcome

namespace CriteriaSql

/-! ### Operators -/

namespace Operation

theorem mem_of_foldl_better {rs : List (String × Operation)} {best : Option (String × Operation)}
    {r : String × Operation} (h : rs.foldl better best = some r) : r ∈ rs ∨ best = some r := by
  -- the best so far is the one at the start or one of the names already seen
  induction rs generalizing best with
  | nil => exact Or.inr h
  | cons s rs ih =>
    rcases ih h with hr | hr
    · exact Or.inl (List.mem_cons_of_mem s hr)
    · -- the new best is the next name or the one before
      unfold better at hr
      split at hr
      · obtain rfl := Option.some.inj hr
        exact Or.inl List.mem_cons_self
      · split at hr
        · obtain rfl := Option.some.inj hr
          exact Or.inl List.mem_cons_self
        · exact Or.inr hr

/-- Every text resolves to a registered operation. -/
theorem resolve_mem (text : String) : resolve text ∈ registered.map Prod.snd := by
  have hequality : equality ∈ registered.map Prod.snd := List.mem_cons_self
  unfold resolve
  dsimp only
  split
  · exact hequality
  · split
    · next r hr =>
      rcases mem_of_foldl_better hr with hmem | hnone
      · exact List.mem_map_of_mem (List.mem_filter.mp hmem).1
      · cases hnone
    · exact hequality

/-- A key without an operator compares for equality. -/
theorem resolve_empty : resolve "" = equality := by decide +kernel

/-- The operators that take one value or constant on their right. -/
def comparisons : List String :=
  (registered.map fun r => r.2.operator).filter (· ≠ "BETWEEN")

/-- Only BETWEEN takes bounds, and it takes nothing else. -/
theorem operator_mem_comparisons {o : Operation} (ho : o ∈ registered.map Prod.snd)
    (hrule : o.rule ≠ some .between) : o.operator ∈ comparisons := by
  revert o
  decide

theorem operator_of_between {o : Operation} (ho : o ∈ registered.map Prod.snd)
    (hrule : o.rule = some .between) : o.operator = "BETWEEN" := by
  revert o
  decide

end Operation

/-! ### Operands -/

/-- What the predicates of a key compare: the expression over the column, the
body, or the text in the body with the cast of the key, a type, or none. -/
inductive Operand (k : Key) : String → Prop
  | column : Operand k k.field
  | body : Operand k (Text.quoteIdent "body")
  | cast (h : k.cast ≠ none) : Operand k k.bodyField
  | typed (type : String) (htype : type = "boolean" ∨ type = "decimal" ∨ type = "timestamptz") :
      Operand k ("(" ++ k.bodyPath ++ ")::" ++ type)
  | text : Operand k ("(" ++ k.bodyPath ++ ")")

theorem typeOf?_eq_some {v : Json} {type : String} (h : Condition.typeOf? v = some type) :
    type = "boolean" ∨ type = "decimal" ∨ type = "timestamptz" := by
  fun_induction Condition.typeOf? v with
  | case1 => exact Or.inl (Option.some.inj h).symm
  | case2 => exact Or.inr (Or.inl (Option.some.inj h).symm)
  | case3 => exact Or.inr (Or.inr (Option.some.inj h).symm)
  | case4 => cases h
  | case5 first items ih => exact ih h
  | case6 => cases h

theorem operand_extracted (c : Condition) : Operand c.key c.extracted := by
  unfold Condition.extracted
  split
  · next h => exact .cast (by rw [h]; exact Option.some_ne_none _)
  · next type _ h => exact .typed type (typeOf?_eq_some h)
  · exact .text

/-! ### Fragments -/

/-- The clauses of a predicate on `field` when `n` is the number of the next
placeholder. -/
inductive Fragment (n : Nat) (field : String) : Clause → Prop
  | truth {text : String} (htext : text = "TRUE" ∨ text = "FALSE") : Fragment n field ⟨text, []⟩
  | constant {operator text : String} (hop : operator ∈ Operation.comparisons)
      (htext : text = "NULL" ∨ text = "TRUE" ∨ text = "FALSE") :
      Fragment n field ⟨field ++ " " ++ operator ++ " " ++ text, []⟩
  | value {operator : String} (hop : operator ∈ Operation.comparisons) (v : Json) :
      Fragment n field ⟨field ++ " " ++ operator ++ " " ++ placeholder n, [v]⟩
  | bounds (low high : Json) :
      Fragment n field
        ⟨field ++ " " ++ "BETWEEN" ++ " " ++ (placeholder n ++ " AND " ++ placeholder (n + 1)),
          [low, high]⟩
  | members {operator : String} (hop : operator = "IN" ∨ operator = "NOT IN")
      {items : List Json} (hitems : items ≠ []) :
      Fragment n field
        ⟨field ++ " " ++ operator ++ " " ++ ("(" ++ ", ".intercalate
            ((List.range items.length).map fun i => placeholder (n + i)) ++ ")"), items⟩

namespace Condition

/-- The clause of a finished condition. -/
def clause (c : Condition) : Clause :=
  ⟨c.predicate, c.params⟩

theorem ne_empty_of_mem_comparisons {operator : String}
    (h : operator ∈ Operation.comparisons) : operator ≠ "" := by
  rintro rfl
  revert h
  decide

/-- A condition with an operator and a right side. -/
theorem predicate_withRight {c : Condition} (h : c.operation.operator ≠ "") (right : String) :
    (c.withRight right).predicate
      = c.field ++ " " ++ c.operation.operator ++ " " ++ right :=
  if_neg h

/-- One bound value. -/
theorem fragment_bindOne {c : Condition} (hc : c.params = [])
    (hop : c.operation.operator ∈ Operation.comparisons) (v : Json) :
    Fragment c.offset c.field (c.bindOne v).clause := by
  have hpred : (c.bindOne v).predicate
      = c.field ++ " " ++ c.operation.operator ++ " " ++ placeholder c.offset :=
    predicate_withRight (c := c.bind [v]) (ne_empty_of_mem_comparisons hop) _
  have hparams : (c.bindOne v).params = [v] := by
    simp [bindOne, bind, withRight, hc]
  rw [clause, hpred, hparams]
  exact .value hop v

/-- A constant that is written out. -/
theorem fragment_withRight {c : Condition} (hc : c.params = [])
    (hop : c.operation.operator ∈ Operation.comparisons) {text : String}
    (htext : text = "NULL" ∨ text = "TRUE" ∨ text = "FALSE") :
    Fragment c.offset c.field (c.withRight text).clause := by
  have hparams : (c.withRight text).params = [] := hc
  rw [clause, predicate_withRight (ne_empty_of_mem_comparisons hop), hparams]
  exact .constant hop htext

theorem constant?_eq_some {v : Json} {text : String} (h : constant? v = some text) :
    text = "NULL" ∨ text = "TRUE" ∨ text = "FALSE" := by
  unfold constant? at h
  split at h
  · exact Or.inl (Option.some.inj h).symm
  · exact Or.inr (Or.inl (Option.some.inj h).symm)
  · exact Or.inr (Or.inr (Option.some.inj h).symm)
  · cases h

theorem fragment_identity {c c' : Condition} (hc : c.params = []) (h : c.identity = .ok c') :
    Fragment c.offset c.field c'.clause := by
  have hnot : "IS NOT" ∈ Operation.comparisons := by decide
  have his : "IS" ∈ Operation.comparisons := by decide
  unfold identity at h
  split at h
  · cases h
  · next text heq =>
    have htext : text = "NULL" ∨ text = "TRUE" ∨ text = "FALSE" := constant?_eq_some heq
    obtain rfl := Except.ok.inj h
    by_cases hplain : c.operation.operator = "=" ∨ c.operation.operator = "IS"
    · rw [if_pos hplain]
      exact fragment_withRight (c := c.withOperator "IS") hc his htext
    · rw [if_neg hplain]
      exact fragment_withRight (c := c.withOperator "IS NOT") hc hnot htext

theorem fragment_between {c c' : Condition} (hc : c.params = [])
    (hop : c.operation.operator = "BETWEEN") (h : c.between = .ok c') :
    Fragment c.offset c.field c'.clause := by
  unfold between at h
  split at h
  · next low high _ =>
    obtain rfl := Except.ok.inj h
    have hne : c.operation.operator ≠ "" := by rw [hop]; decide
    have hparams : (c.bind [low, high]).params = [low, high] := by
      simp [bind, hc]
    show Fragment _ _ ⟨((c.bind [low, high]).withRight _).predicate, (c.bind [low, high]).params⟩
    rw [predicate_withRight (c := c.bind [low, high]) hne, hparams]
    show Fragment _ _ ⟨c.field ++ " " ++ c.operation.operator ++ " " ++ _, _⟩
    rw [hop]
    exact .bounds low high
  · cases h

/-- The empty list: a constant in place of the field. -/
theorem clause_emptyList (c : Condition) (hc : c.params = []) (text : String) :
    clause { c.withOperator "" with field := text, right := none } = ⟨text, []⟩ := by
  show Clause.mk text c.params = ⟨text, []⟩
  rw [hc]

/-- A list of placeholders. -/
theorem fragment_list {c : Condition} (hc : c.params = []) {operator : String}
    (hop : operator = "IN" ∨ operator = "NOT IN") {items : List Json} (hitems : items ≠ []) :
    Fragment c.offset c.field
      (((c.withOperator operator).bind items).withRight
        ("(" ++ ", ".intercalate (c.placeholders items.length) ++ ")")).clause := by
  have hne : operator ≠ "" := by
    rcases hop with rfl | rfl <;> decide
  have hparams : ((c.withOperator operator).bind items).params = items := by
    show c.params ++ items = items
    rw [hc, List.nil_append]
  show Fragment _ _ ⟨(((c.withOperator operator).bind items).withRight _).predicate,
    ((c.withOperator operator).bind items).params⟩
  rw [predicate_withRight hne, hparams]
  exact .members hop hitems

theorem fragment_membership {c c' : Condition} (hc : c.params = [])
    (h : c.membership = .ok c') : Fragment c.offset c.field c'.clause := by
  -- whether the membership is negated only chooses between two texts
  have htext : (if c.operation.operator ≠ "=" then "TRUE" else "FALSE") = "TRUE"
      ∨ (if c.operation.operator ≠ "=" then "TRUE" else "FALSE") = "FALSE" := by
    split
    · exact Or.inl rfl
    · exact Or.inr rfl
  have hop : (if c.operation.operator ≠ "=" then "NOT IN" else "IN") = "IN"
      ∨ (if c.operation.operator ≠ "=" then "NOT IN" else "IN") = "NOT IN" := by
    split
    · exact Or.inr rfl
    · exact Or.inl rfl
  unfold membership at h
  dsimp only at h
  split at h
  · obtain rfl := Except.ok.inj h
    rw [clause_emptyList c hc]
    exact .truth htext
  · next items hne _ =>
    obtain rfl := Except.ok.inj h
    exact fragment_list hc hop fun hnil => hne hnil
  · cases h

theorem fragment_equality {c c' : Condition} (hc : c.params = [])
    (hop : c.operation.operator ∈ Operation.comparisons) (h : c.equality = .ok c') :
    Fragment c.offset c.field c'.clause := by
  unfold equality at h
  split at h
  · exact fragment_identity hc h
  · exact fragment_identity hc h
  · exact fragment_membership hc h
  · obtain rfl := Except.ok.inj h
    exact fragment_bindOne hc hop c.value

theorem fragment_arrayLiteral {c : Condition} (hc : c.params = [])
    (hop : c.operation.operator ∈ Operation.comparisons) :
    Fragment c.offset c.field c.arrayLiteral.clause := by
  unfold arrayLiteral
  split
  · exact fragment_bindOne hc hop _
  · exact fragment_bindOne hc hop c.value

/-! ### Compiling against a column and against the body -/

theorem fragment_compileColumn {c c' : Condition} (hc : c.params = [])
    (hmem : c.operation ∈ Operation.registered.map Prod.snd) (h : c.compileColumn = .ok c') :
    Fragment c.offset c.field c'.clause := by
  unfold compileColumn at h
  split at h
  · next rule hrule =>
    cases rule with
    | between => exact fragment_between hc (Operation.operator_of_between hmem hrule) h
    | is => exact fragment_identity hc h
    | equality =>
      have hop := Operation.operator_mem_comparisons hmem (by rw [hrule]; decide)
      exact fragment_equality hc hop h
    | arrayLiteral =>
      have hop := Operation.operator_mem_comparisons hmem (by rw [hrule]; decide)
      obtain rfl := Except.ok.inj h
      exact fragment_arrayLiteral hc hop
  · next hrule =>
    have hop := Operation.operator_mem_comparisons hmem (by rw [hrule]; decide)
    obtain rfl := Except.ok.inj h
    split
    · exact fragment_withRight hc hop (Or.inl rfl)
    · exact fragment_bindOne hc hop c.value

/-- The body contains a document, which is the one value that is bound. -/
theorem fragment_containment {c : Condition} (hc : c.params = []) (document : Json) :
    Fragment c.offset (Text.quoteIdent "body") (c.containment document).clause := by
  have hop : "@>" ∈ Operation.comparisons := by decide
  exact fragment_bindOne
    (c := { c with field := Text.quoteIdent "body", operation := ⟨"@>", none⟩ }) hc hop document

theorem fragment_compileBody {c c' : Condition} {group : Json} (hc : c.params = [])
    (hmem : c.operation ∈ Operation.registered.map Prod.snd)
    (h : c.compileBody group = .ok c') :
    ∃ field, Operand c.key field ∧ Fragment c.offset field c'.clause := by
  unfold compileBody at h
  split at h
  · obtain rfl := Except.ok.inj h
    exact ⟨_, .body, fragment_containment hc group⟩
  · split at h
    · obtain rfl := Except.ok.inj h
      exact ⟨_, .body, fragment_containment hc _⟩
    · exact ⟨_, operand_extracted c,
        fragment_compileColumn (c := { c with field := c.extracted }) hc hmem h⟩

end Condition

/-! ### Predicates -/

namespace Criteria

/-- The key is compared in the body. -/
def UsesBody (target : Target) (key : String) : Prop :=
  target.storage = .document ∧ (Key.parse key).column ∉ target.pk

/-- The condition of a predicate before it is compiled. -/
def startOf (key : String) (value : Json) (offset : Nat) : Condition :=
  Condition.start (Key.parse key) (Operation.resolve (Key.parse key).operatorText) value
    (offset + 1)

section

variable (key : String) (value : Json) (offset : Nat)

theorem key_startOf : (startOf key value offset).key = Key.parse key := by
  rw [startOf, Condition.start]

theorem field_startOf : (startOf key value offset).field = (Key.parse key).field := by
  rw [startOf, Condition.start]

theorem value_startOf : (startOf key value offset).value = value := by
  rw [startOf, Condition.start]

theorem operation_startOf :
    (startOf key value offset).operation = Operation.resolve (Key.parse key).operatorText := by
  rw [startOf, Condition.start]

theorem operation_startOf_mem :
    (startOf key value offset).operation ∈ Operation.registered.map Prod.snd := by
  rw [operation_startOf]
  exact Operation.resolve_mem _

theorem offset_startOf : (startOf key value offset).offset = offset + 1 := by
  rw [startOf, Condition.start]

theorem params_startOf : (startOf key value offset).params = [] := by
  rw [startOf, Condition.start]

end

section

variable {target : Target} {siblings : Criteria} {offset : Nat} {key : String} {value : Json}

theorem predicateClause_column (h : ¬UsesBody target key) :
    predicateClause target siblings offset key value
      = (startOf key value offset).compileColumn.map Condition.clause := by
  unfold UsesBody at h
  unfold predicateClause
  dsimp only
  rw [if_neg h]
  exact bind_pure_comp Condition.clause _

theorem predicateClause_body (h : UsesBody target key) :
    predicateClause target siblings offset key value
      = ((startOf key value offset).compileBody siblings.toJson).map Condition.clause := by
  unfold UsesBody at h
  unfold predicateClause
  dsimp only
  rw [if_pos h]
  exact bind_pure_comp Condition.clause _

end

end Criteria

open Criteria

/-- Every compiled predicate is a fragment on an operand of its key. -/
theorem fragment_of_predicateClause {target : Target} {siblings : Criteria} {offset : Nat}
    {key : String} {value : Json} {clause : Clause}
    (h : Criteria.predicateClause target siblings offset key value = .ok clause) :
    ∃ field, Operand (Key.parse key) field ∧ Fragment (offset + 1) field clause := by
  have hparams := params_startOf key value offset
  have hmem := operation_startOf_mem key value offset
  by_cases hbody : UsesBody target key
  · rw [predicateClause_body hbody] at h
    obtain ⟨c, hc, rfl⟩ := map_eq_ok_iff.mp h
    have hfragment := Condition.fragment_compileBody hparams hmem hc
    rwa [key_startOf, offset_startOf] at hfragment
  · rw [predicateClause_column hbody] at h
    obtain ⟨c, hc, rfl⟩ := map_eq_ok_iff.mp h
    have hfragment := Condition.fragment_compileColumn hparams hmem hc
    rw [field_startOf, offset_startOf] at hfragment
    exact ⟨_, .column, hfragment⟩

end CriteriaSql
