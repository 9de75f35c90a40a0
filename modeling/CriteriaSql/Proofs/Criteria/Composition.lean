/-
CriteriaSql/Proofs/Criteria/Composition.lean

Criteria that are compiled one after the other.

An entry is compiled after the parameters of those before it, and next to the
criteria that it stands in.  The first makes the clauses of a list of entries
those of its front followed by those of its back (`entryClauses_append`).  The
second matters to one kind of predicate only: a list of objects in the body asks
for the whole object of its criteria.  Entries without such a list are
`Freestanding`, and have the same clauses in any criteria
(`entryClauses_eq_of_freestanding`).

Main results: criteria are compiled as their front and then their back, with the
same error where one of them fails (`compile_append`), and what is compiled later
only has later numbers (`compile_compositional`).
-/
import CriteriaSql.Proofs.Criteria.Shape
import CriteriaSql.Proofs.Criteria.Shift

namespace CriteriaSql

/-- Both of two clauses. -/
def Clause.both (a b : Clause) : Clause :=
  ⟨a.conditions ++ " AND " ++ b.conditions, a.params ++ b.params⟩

/-- The conjunction of two lists is that of their conjunctions. -/
theorem Clause.conjunction_append {as bs : List Clause} (has : as ≠ []) (hbs : bs ≠ []) :
    conjunction (as ++ bs) = (conjunction as).both (conjunction bs) := by
  obtain ⟨a, as, rfl⟩ := List.exists_cons_of_ne_nil has
  obtain ⟨b, bs, rfl⟩ := List.exists_cons_of_ne_nil hbs
  have hparams : allParams (a :: as ++ b :: bs) = allParams (a :: as) ++ allParams (b :: bs) :=
    List.flatMap_append
  have hconditions : " AND ".intercalate ((a :: as ++ b :: bs).map conditions)
      = " AND ".intercalate ((a :: as).map conditions) ++ " AND "
        ++ " AND ".intercalate ((b :: bs).map conditions) := by
    rw [List.map_append]
    apply String.intercalate_append_of_ne_nil <;> simp
  show Clause.mk (" AND ".intercalate ((a :: as ++ b :: bs).map conditions))
    (allParams (a :: as ++ b :: bs)) = _
  rw [hparams, hconditions]
  rfl

namespace Criteria

variable {target : Target}

/-! ### Entries on their own -/

/-- No predicate of the entries compares a list of objects in the body. -/
def Freestanding (target : Target) (entries : List Criterion) : Prop :=
  ∀ key value, .predicate key value ∈ entries → UsesBody target key → ¬value.IsObjectList

theorem Freestanding.of_subset {entries entries' : List Criterion}
    (h : Freestanding target entries) (hsubset : entries' ⊆ entries) :
    Freestanding target entries' :=
  fun key value hmem => h key value (hsubset hmem)

/-- Only a list of objects in the body looks at the criteria around it. -/
theorem predicateClause_eq_of_not_isObjectList {key : String} {value : Json}
    (h : UsesBody target key → ¬value.IsObjectList) (siblings siblings' : Criteria)
    (offset : Nat) : predicateClause target siblings offset key value
      = predicateClause target siblings' offset key value := by
  by_cases hbody : UsesBody target key
  · have hvalue : ¬Condition.isObjectList (startOf key value offset).value = true := by
      rw [value_startOf, Json.isObjectList_iff]
      exact h hbody
    rw [predicateClause_body hbody, predicateClause_body hbody, Condition.compileBody,
      Condition.compileBody, if_neg hvalue, if_neg hvalue]
  · rw [predicateClause_column hbody, predicateClause_column hbody]

theorem entryClause_eq_of_freestanding {entry : Criterion} {entries : List Criterion}
    (h : Freestanding target entries) (hentry : entry ∈ entries) (siblings siblings' : Criteria)
    (offset : Nat) :
    entryClause target siblings offset entry = entryClause target siblings' offset entry := by
  cases entry with
  | predicate key value =>
    rw [entryClause, entryClause]
    exact predicateClause_eq_of_not_isObjectList (h key value hentry) siblings siblings' offset
  | group connective branches => rw [entryClause, entryClause]

theorem entryClauses_eq_of_freestanding {entries : List Criterion}
    (h : Freestanding target entries) (siblings siblings' : Criteria) (offset : Nat) :
    entryClauses target siblings offset entries
      = entryClauses target siblings' offset entries := by
  induction entries generalizing offset with
  | nil => rfl
  | cons entry entries ih =>
    have hrest := ih (h.of_subset (List.subset_cons_self entry entries))
    rw [entryClauses, entryClauses,
      entryClause_eq_of_freestanding h List.mem_cons_self siblings siblings']
    simp only [hrest]

/-! ### One after the other -/

/-- The back of a list is compiled after the parameters of its front. -/
theorem entryClauses_append (target : Target) (siblings : Criteria) (offset : Nat)
    (first second : List Criterion) :
    entryClauses target siblings offset (first ++ second) = (do
      let as ← entryClauses target siblings offset first
      let bs ← entryClauses target siblings (offset + (Clause.allParams as).length) second
      return as ++ bs) := by
  induction first generalizing offset with
  | nil => exact (bind_pure _).symm
  | cons entry first ih =>
    rw [List.cons_append, entryClauses, entryClauses]
    rcases entryClause target siblings offset entry with e | a
    · rfl
    · show (entryClauses target siblings (offset + a.params.length) (first ++ second) >>= _)
        = ((entryClauses target siblings (offset + a.params.length) first >>= _) >>= _)
      rw [ih]
      rcases entryClauses target siblings (offset + a.params.length) first with e | as
      · rfl
      · -- the parameters of the front are those of its first entry and of the others
        have hparams : offset + (Clause.allParams (a :: as)).length
            = offset + a.params.length + (Clause.allParams as).length := by
          rw [Clause.allParams, List.flatMap_cons, List.length_append, Nat.add_assoc]
          rfl
        show ((entryClauses target siblings
            (offset + a.params.length + (Clause.allParams as).length) second >>= _) >>= _)
          = (entryClauses target siblings (offset + (Clause.allParams (a :: as)).length) second
            >>= _)
        rw [hparams]
        rcases entryClauses target siblings
          (offset + a.params.length + (Clause.allParams as).length) second with e | bs <;> rfl

theorem ne_nil_of_entryClauses {siblings : Criteria} {offset : Nat} {entries : List Criterion}
    {cs : List Clause} (h : entryClauses target siblings offset entries = .ok cs)
    (hne : entries ≠ []) : cs ≠ [] := by
  obtain ⟨entry, entries, rfl⟩ := List.exists_cons_of_ne_nil hne
  rw [entryClauses] at h
  obtain ⟨c, -, h⟩ := bind_eq_ok_iff.mp h
  obtain ⟨cs, -, h⟩ := bind_eq_ok_iff.mp h
  obtain rfl := Except.ok.inj h
  exact List.cons_ne_nil c cs

/-- Criteria are compiled as their front, and then as their back after its
parameters. -/
theorem compile_append {first second : Criteria} (hfirst : first ≠ []) (hsecond : second ≠ [])
    (h : Freestanding target (first ++ second)) (offset : Nat) :
    compile target offset (first ++ second) = (do
      let a ← compile target offset first
      let b ← compile target (offset + a.params.length) second
      return a.both b) := by
  have hfront := entryClauses_eq_of_freestanding
    (h.of_subset (List.subset_append_left first second)) (first ++ second) first
  have hback := entryClauses_eq_of_freestanding
    (h.of_subset (List.subset_append_right first second)) (first ++ second) second
  rw [compile, entryClauses_append, hfront, compile]
  rcases has : entryClauses target first offset first with e | as
  · rfl
  · have hparams : (Clause.conjunction as).params = Clause.allParams as :=
      Outline.params_conjunction as
    show ((entryClauses target (first ++ second) (offset + (Clause.allParams as).length) second
        >>= _) >>= _)
      = (compile target (offset + (Clause.conjunction as).params.length) second >>= _)
    rw [hback, hparams, compile]
    rcases hbs : entryClauses target second (offset + (Clause.allParams as).length) second
      with e | bs
    · rfl
    · exact congrArg Except.ok (Clause.conjunction_append (ne_nil_of_entryClauses has hfirst)
        (ne_nil_of_entryClauses hbs hsecond))

/-- Criteria without a list of objects in the body compile when their front does
and their back does after the parameters of the front, to the clauses of both
joined with AND and the parameters of both.  Compiled after `k` parameters, any
criteria have the clause that they have without them, with `k` added to the
number of every placeholder, or the same error. -/
theorem compile_compositional (target : Target) :
    (∀ first second : Criteria, first ≠ [] → second ≠ [] →
      Freestanding target (first ++ second) → ∀ (offset : Nat) (clause : Clause),
        compile target offset (first ++ second) = .ok clause
          ↔ ∃ a b, compile target offset first = .ok a
            ∧ compile target (offset + a.params.length) second = .ok b
            ∧ clause = ⟨a.conditions ++ " AND " ++ b.conditions, a.params ++ b.params⟩)
    ∧ ∀ (criteria : Criteria) (k : Nat),
        compile target k criteria = (compile target 0 criteria).map (Clause.shift k) := by
  constructor
  · intro first second hfirst hsecond h offset clause
    rw [compile_append hfirst hsecond h]
    constructor
    · intro hclause
      obtain ⟨a, ha, hclause⟩ := bind_eq_ok_iff.mp hclause
      obtain ⟨b, hb, hclause⟩ := bind_eq_ok_iff.mp hclause
      exact ⟨a, b, ha, hb, (Except.ok.inj hclause).symm⟩
    · rintro ⟨a, b, ha, hb, rfl⟩
      exact bind_eq_ok_iff.mpr ⟨a, ha, bind_eq_ok_iff.mpr ⟨b, hb, rfl⟩⟩
  · intro criteria k
    rw [← compile_add, Nat.zero_add]

/-- A list in a column whose name looks like a placeholder, followed by a
comparison in the body and a group with a list of objects. -/
theorem compile_compositional_document :
    Freestanding ⟨.document, ["k$1"]⟩ [.predicate "k$1" (.arr [.str "x", .str "y"]),
        .predicate "n >" (.str "z"), .group .any [[.predicate "m" (.arr [.obj []])]]]
    ∧ compile ⟨.document, ["k$1"]⟩ 2 [.predicate "k$1" (.arr [.str "x", .str "y"]),
        .predicate "n >" (.str "z"), .group .any [[.predicate "m" (.arr [.obj []])]]]
      = .ok ⟨"\"k$1\" IN ($3, $4)" ++ " AND "
            ++ "(\"body\"->>'n') > $5 AND ((\"body\" @> $6))",
          [.str "x", .str "y"] ++ [.str "z", .obj [("m", .arr [.obj []])]]⟩
    ∧ Sql.shift 2 "\"k$1\" IN ($1, $2)" = "\"k$1\" IN ($3, $4)" := by
  have hfree : Freestanding ⟨.document, ["k$1"]⟩
      ([.predicate "k$1" (.arr [.str "x", .str "y"])]
        ++ [.predicate "n >" (.str "z"), .group .any [[.predicate "m" (.arr [.obj []])]]]) := by
    rintro key value hmem - ⟨items, rfl, -, hitems⟩
    simp only [List.cons_append, List.nil_append, List.mem_cons, Criterion.predicate.injEq] at hmem
    rcases hmem with ⟨-, hlist⟩ | ⟨-, htext⟩ | hgroup | hnil
    · -- the items of the list are texts
      obtain rfl := Json.arr.inj hlist
      obtain ⟨members, hx⟩ := hitems (.str "x") List.mem_cons_self
      cases hx
    · cases htext
    · cases hgroup
    · cases hnil
  have hk : Key.parse "k$1" = ⟨"k$1", [], none, ""⟩ := by decide +kernel
  have hn : Key.parse "n >" = ⟨"n", [], none, ">"⟩ := by decide +kernel
  have hm : Key.parse "m" = ⟨"m", [], none, ""⟩ := by decide +kernel
  have hfirst : compile ⟨.document, ["k$1"]⟩ 0 [.predicate "k$1" (.arr [.str "x", .str "y"])]
      = .ok ⟨"\"k$1\" IN ($1, $2)", [.str "x", .str "y"]⟩ := by
    rw [compile, entryClauses, entryClause, predicateClause, hk, Operation.resolve_empty]
    rfl
  have hlater : compile ⟨.document, ["k$1"]⟩ 2 [.predicate "k$1" (.arr [.str "x", .str "y"])]
      = .ok ⟨"\"k$1\" IN ($3, $4)", [.str "x", .str "y"]⟩ := by
    rw [compile, entryClauses, entryClause, predicateClause, hk, Operation.resolve_empty]
    rfl
  have htext : ∀ siblings, predicateClause ⟨.document, ["k$1"]⟩ siblings 4 "n >" (.str "z")
      = .ok ⟨"(\"body\"->>'n') > $5", [.str "z"]⟩ := by
    intro siblings
    rw [predicateClause, hn]
    rfl
  have hobjects : predicateClause ⟨.document, ["k$1"]⟩ [.predicate "m" (.arr [.obj []])] 5 "m"
      (.arr [.obj []]) = .ok ⟨"\"body\" @> $6", [.obj [("m", .arr [.obj []])]]⟩ := by
    rw [predicateClause, hm, Operation.resolve_empty]
    rfl
  have hsecond : compile ⟨.document, ["k$1"]⟩ 4
      [.predicate "n >" (.str "z"), .group .any [[.predicate "m" (.arr [.obj []])]]]
      = .ok ⟨"(\"body\"->>'n') > $5 AND ((\"body\" @> $6))",
          [.str "z", .obj [("m", .arr [.obj []])]]⟩ := by
    rw [compile, entryClauses, entryClause, htext]
    show ((entryClauses ⟨.document, ["k$1"]⟩ _ 5 _ >>= _) >>= _) = _
    rw [entryClauses, entryClause, branchClauses, entryClauses, entryClause, hobjects]
    rfl
  obtain ⟨happend, hshift⟩ := compile_compositional ⟨.document, ["k$1"]⟩
  refine ⟨hfree, ?_, ?_⟩
  · exact (happend _ _ (List.cons_ne_nil _ _) (List.cons_ne_nil _ _) hfree 2 _).mpr
      ⟨_, _, hlater, hsecond, rfl⟩
  · have h := hshift [.predicate "k$1" (.arr [.str "x", .str "y"])] 2
    rw [hlater, hfirst] at h
    exact (congrArg Clause.conditions (Except.ok.inj h)).symm

end Criteria

end CriteriaSql
