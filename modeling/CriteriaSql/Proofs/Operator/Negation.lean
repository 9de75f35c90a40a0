/-
CriteriaSql/Proofs/Operator/Negation.lean

Operators behind the word NOT or an exclamation mark.

A negation is not read by itself: it counts where it makes a registered name,
alone or with the name behind it.  The negated operator is then chosen over the
plain one when it is the longer one, whatever else the text holds; and for a
name of which the negation has no longer operator, the negation is lost already
in the text that has nothing but the two.

Main result: `negation_kept_iff`.  Negations are not kept in front of all names
(`not_forall_negation_kept`).
-/
import CriteriaSql.Proofs.Criteria.Predicate
import CriteriaSql.Proofs.Operator.Ranking

namespace CriteriaSql.Operation

/-! ### Negations -/

/-- What negates the name behind it: the word NOT and a space, or an exclamation
mark. -/
inductive Negation where
  | word
  | mark
deriving DecidableEq, Repr

/-- The text of a negation. -/
def Negation.text : Negation → String
  | .word => "not "
  | .mark => "!"

/-- In no text in which a negation stands in front of the name does the text
name the operator of the name alone. -/
def Negation.KeptBefore (negation : Negation) (r : String × Operation) : Prop :=
  ∀ text, Occurs (negation.text ++ r.1) text → (resolve text).operator ≠ r.2.operator

/-- The negations that make a name with a longer operator. -/
def negatable : List (Negation × String) :=
  [(.mark, "="), (.mark, ">"), (.mark, "<"), (.mark, "~~"), (.mark, "~~*"), (.mark, "~"),
   (.mark, "~*"), (.word, "like"), (.word, "ilike"), (.word, "similar to")]

/-! ### Negations that are kept -/

theorem exists_longer_of_negatable : ∀ r ∈ registered, ∀ negation : Negation,
    (negation, r.1) ∈ negatable → ∃ q ∈ registered,
      q.1.toList <:+: (negation.text ++ r.1).toList
        ∧ r.2.operator.length < q.2.operator.length := by
  intro r hr negation
  cases negation <;> revert r <;> decide +kernel

/-- The operator that is named is as long as that of any name that occurs. -/
theorem length_operator_le {text : String} {q : String × Operation} (hq : q ∈ registered)
    (hoccurs : Occurs q.1 text) : q.2.operator.length ≤ (resolve text).operator.length := by
  obtain ⟨r, hr, hresolve⟩ := exists_foremost ⟨q, hq, hoccurs⟩
  have hrank := hr.rank_le hq hoccurs
  rw [rank, rank, Prod.Lex.toLex_le_toLex] at hrank
  rw [hresolve]
  rcases hrank with hlt | ⟨heq, -⟩
  · exact hlt.le
  · exact heq.le

theorem keptBefore_of_negatable {r : String × Operation} (hr : r ∈ registered)
    {negation : Negation} (h : (negation, r.1) ∈ negatable) : negation.KeptBefore r := by
  intro text hoccurs heq
  obtain ⟨q, hq, hwithin, hlonger⟩ := exists_longer_of_negatable r hr negation h
  have hle := length_operator_le hq (hwithin.trans hoccurs)
  rw [heq] at hle
  omega

/-! ### Negations that are lost -/

/-- Any other negation is lost in the text of it and the name alone. -/
theorem operator_of_not_negatable : ∀ r ∈ registered, ∀ negation : Negation,
    (negation, r.1) ∉ negatable → Occurs (negation.text ++ r.1) (negation.text ++ r.1)
      ∧ (resolve (negation.text ++ r.1)).operator = r.2.operator := by
  intro r hr negation
  cases negation <;> revert r <;> decide +kernel

/-! ### Main result -/

/-- A negation is kept in front of a registered name, in all texts, exactly when
it makes a name with a longer operator: an exclamation mark in front of `=`, `>`,
`<`, `~~`, `~~*`, `~` and `~*`, and NOT in front of `like`, `ilike` and
`similar to`.  A key whose operator text holds one of these is not compared by
the operator of the plain name. -/
theorem negation_kept_iff {r : String × Operation} (hr : r ∈ registered) (negation : Negation) :
    (negation.KeptBefore r ↔ (negation, r.1) ∈ negatable)
      ∧ ((negation, r.1) ∈ negatable → ∀ key value offset,
        Occurs (negation.text ++ r.1) (Key.parse key).operatorText →
          (Criteria.startOf key value offset).operation.operator ≠ r.2.operator) := by
  refine ⟨⟨fun hkept => ?_, keptBefore_of_negatable hr⟩, fun h key value offset hoccurs => ?_⟩
  · by_contra hnot
    obtain ⟨hoccurs, heq⟩ := operator_of_not_negatable r hr negation hnot
    exact hkept _ hoccurs heq
  · rw [Criteria.operation_startOf]
    exact keptBefore_of_negatable hr h _ hoccurs

/-- NOT in front of LIKE, in any text and in a key. -/
theorem negation_kept_iff_like :
    ("like", ⟨"LIKE", none⟩) ∈ registered
      ∧ Negation.word.KeptBefore ("like", ⟨"LIKE", none⟩)
      ∧ (Criteria.startOf "name NOT  LIKE" .null 0).operation.operator ≠ "LIKE" := by
  have hmem : ("like", ⟨"LIKE", none⟩) ∈ registered := by decide
  have hpair : (Negation.word, "like") ∈ negatable := by decide
  obtain ⟨hkept, hkey⟩ := negation_kept_iff hmem .word
  refine ⟨hmem, hkept.mpr hpair, hkey hpair "name NOT  LIKE" .null 0 ?_⟩
  decide +kernel

/-- NOT in front of BETWEEN is read over, and so is an exclamation mark in front
of LIKE and of `>=`. -/
theorem not_forall_negation_kept :
    (Occurs "not between" "not between" ∧ resolve "not between" = ⟨"BETWEEN", some .between⟩)
      ∧ (Occurs "!like" "!like" ∧ resolve "!like" = ⟨"LIKE", none⟩)
      ∧ (Occurs "!>=" "!>=" ∧ resolve "!>=" = ⟨">=", none⟩)
      ∧ ¬∀ r ∈ registered, ∀ negation : Negation, ∀ text,
        Occurs (negation.text ++ r.1) text → (resolve text).operator ≠ r.2.operator := by
  have hbetween : resolve "not between" = ⟨"BETWEEN", some .between⟩ := by decide +kernel
  have hoccurs : Occurs "not between" "not between" := by decide +kernel
  refine ⟨⟨hoccurs, hbetween⟩, by decide +kernel, by decide +kernel, fun h => ?_⟩
  refine h ("between", ⟨"BETWEEN", some .between⟩) (by decide) .word "not between" hoccurs ?_
  rw [hbetween]

end CriteriaSql.Operation
