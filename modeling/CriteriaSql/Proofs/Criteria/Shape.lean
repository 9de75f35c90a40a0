/-
CriteriaSql/Proofs/Criteria/Shape.lean

Values never reach the text of a clause.

Two criteria are alike when they have the same entries, keys and groups and
their values have the same shape: null, the same boolean, lists of equal
length, or two values that are none of these.  For a document table the values
must also call for the same cast, and be lists of objects together or not at
all.

Main result: alike criteria compile to the same text with equally many
parameters, or both fail to compile (`together_compile`).  Whatever a text, a
number or an object holds, it can only turn up among the parameters.
-/
import CriteriaSql.Criteria.Where
import CriteriaSql.Proofs.Outcome
import Mathlib.Data.List.Forall2

namespace CriteriaSql

/-! ### Values of one shape -/

namespace Json

/-- A number, a text or an object. -/
inductive IsPlain : Json → Prop
  | num (n : JsonNumber) : IsPlain (.num n)
  | str (s : String) : IsPlain (.str s)
  | obj (members : List (String × Json)) : IsPlain (.obj members)

/-- Values that a clause over columns treats alike. -/
inductive SameShape : Json → Json → Prop
  | null : SameShape .null .null
  | bool (b : Bool) : SameShape (.bool b) (.bool b)
  | arr {items items' : List Json} (hlength : items.length = items'.length) :
      SameShape (.arr items) (.arr items')
  | plain {v w : Json} (hv : IsPlain v) (hw : IsPlain w) : SameShape v w

/-- A list of objects, not empty. -/
def IsObjectList (v : Json) : Prop :=
  ∃ items, v = .arr items ∧ items ≠ [] ∧ ∀ item ∈ items, ∃ members, item = .obj members

/-- Values that a clause over the given storage treats alike.  In a document
table they are cast to the same type, and the criteria they stand in are
matched as a whole for both or for neither. -/
structure Alike (storage : Storage) (v w : Json) : Prop where
  shape : SameShape v w
  type : storage = .document → Condition.typeOf? v = Condition.typeOf? w
  objects : storage = .document → (IsObjectList v ↔ IsObjectList w)

namespace SameShape

variable {v w : Json}

theorem isNull_eq (h : SameShape v w) : v.isNull = w.isNull := by
  cases h with
  | null => rfl
  | bool b => rfl
  | arr hlength => rfl
  | plain hv hw => cases hv <;> cases hw <;> rfl

theorem isArr_eq (h : SameShape v w) : v.isArr = w.isArr := by
  cases h with
  | null => rfl
  | bool b => rfl
  | arr hlength => rfl
  | plain hv hw => cases hv <;> cases hw <;> rfl

end SameShape

theorem isObj_iff {v : Json} : v.isObj = true ↔ ∃ members, v = .obj members := by
  cases v <;> simp [isObj]

theorem isObjectList_iff {v : Json} : Condition.isObjectList v = true ↔ IsObjectList v := by
  unfold IsObjectList
  cases v with
  | arr items => simp [Condition.isObjectList, isObj_iff]
  | null => simp [Condition.isObjectList]
  | bool b => simp [Condition.isObjectList]
  | num n => simp [Condition.isObjectList]
  | str s => simp [Condition.isObjectList]
  | obj members => simp [Condition.isObjectList]

end Json

/-! ### Conditions -/

namespace Condition

/-- Finished conditions that read the same and bind equally many values. -/
structure SameText (c d : Condition) : Prop where
  field : c.field = d.field
  operator : c.operation.operator = d.operation.operator
  right : c.right = d.right
  params : c.params.length = d.params.length

theorem SameText.predicate_eq {c d : Condition} (h : SameText c d) : c.predicate = d.predicate := by
  unfold predicate
  rw [h.field, h.operator, h.right]

variable (c : Condition) {v w : Json}

/-- The condition `c` on another value. -/
def on (v : Json) : Condition :=
  { c with value := v }

theorem on_start (key : Key) (operation : Operation) (v w : Json) (offset : Nat) :
    (start key operation v offset).on w = start key operation w offset := rfl

theorem sameText_bindOne (x y : Json) : SameText ((c.on v).bindOne x) ((c.on w).bindOne y) :=
  ⟨rfl, rfl, rfl, by simp [bindOne, bind, withRight, on]⟩

/-- A value that is written out is the same on both sides. -/
theorem sameText_withRight (text : String) :
    SameText ((c.on v).withRight text) ((c.on w).withRight text) :=
  ⟨rfl, rfl, rfl, rfl⟩

theorem together_identity (h : v.SameShape w) :
    Together SameText (c.on v).identity (c.on w).identity := by
  cases h with
  | null => exact .succeeded ⟨rfl, rfl, rfl, rfl⟩
  | bool b => cases b <;> exact .succeeded ⟨rfl, rfl, rfl, rfl⟩
  | arr hlength => exact .failed _ _
  | plain hv hw => cases hv <;> cases hw <;> exact .failed _ _

/-- Lists of equal length get the same placeholders. -/
theorem together_membership {items items' : List Json} (hlength : items.length = items'.length) :
    Together SameText (c.on (.arr items)).membership (c.on (.arr items')).membership := by
  cases items with
  | nil =>
    obtain rfl : items' = [] := List.length_eq_zero_iff.mp hlength.symm
    exact .succeeded ⟨rfl, rfl, rfl, rfl⟩
  | cons item items =>
    cases items' with
    | nil => cases hlength
    | cons item' items' =>
      refine .succeeded ⟨rfl, rfl, ?_, ?_⟩
      · simp only [withRight, placeholders, hlength]
        rfl
      · simp only [withRight, bind, withOperator, List.length_append, hlength]
        rfl

theorem together_equality (h : v.SameShape w) :
    Together SameText (c.on v).equality (c.on w).equality := by
  cases h with
  | null => exact together_identity c .null
  | bool b => exact together_identity c (.bool b)
  | arr hlength => exact together_membership c hlength
  | plain hv hw => cases hv <;> cases hw <;> exact .succeeded (sameText_bindOne c _ _)

/-- Bounds are two on both sides or on neither. -/
theorem together_between (h : v.SameShape w) :
    Together SameText (c.on v).between (c.on w).between := by
  cases h with
  | null => exact .failed _ _
  | bool b => exact .failed _ _
  | @arr items items' hlength =>
    match items, items', hlength with
    | [low, high], [low', high'], _ =>
      exact .succeeded ⟨rfl, rfl, rfl, by simp [withRight, bind, on]⟩
    | [], [], _ => exact .failed _ _
    | [_], [_], _ => exact .failed _ _
    | _ :: _ :: _ :: _, _ :: _ :: _ :: _, _ => exact .failed _ _
  | plain hv hw => cases hv <;> cases hw <;> exact .failed _ _

theorem sameText_arrayLiteral (h : v.SameShape w) :
    SameText (c.on v).arrayLiteral (c.on w).arrayLiteral := by
  cases h with
  | null => exact sameText_bindOne c _ _
  | bool b => exact sameText_bindOne c _ _
  | arr hlength => exact sameText_bindOne c _ _
  | plain hv hw => cases hv <;> cases hw <;> exact sameText_bindOne c _ _

theorem together_applyRule (rule : ValueRule) (h : v.SameShape w) :
    Together SameText ((c.on v).applyRule rule) ((c.on w).applyRule rule) := by
  cases rule with
  | equality => exact together_equality c h
  | between => exact together_between c h
  | is => exact together_identity c h
  | arrayLiteral => exact .succeeded (sameText_arrayLiteral c h)

theorem together_compileColumn (h : v.SameShape w) :
    Together SameText (c.on v).compileColumn (c.on w).compileColumn := by
  have hv : (c.on v).operation.rule = c.operation.rule := rfl
  have hw : (c.on w).operation.rule = c.operation.rule := rfl
  unfold compileColumn
  rw [hv, hw]
  cases c.operation.rule with
  | some rule => exact together_applyRule c rule h
  | none =>
    -- without a rule null is written out, and every other value bound
    show Together _ (Except.ok (if v.isNull then _ else _)) (Except.ok (if w.isNull then _ else _))
    rw [h.isNull_eq]
    cases w.isNull with
    | true => exact .succeeded (sameText_withRight c "NULL")
    | false => exact .succeeded (sameText_bindOne c v w)

/-- Alike values are compiled against the body in the same way, whatever the
criteria around them are. -/
theorem together_compileBody (h : v.Alike .document w) (group group' : Json) :
    Together SameText ((c.on v).compileBody group) ((c.on w).compileBody group') := by
  have hobjects : isObjectList v = isObjectList w := by
    rw [Bool.eq_iff_iff, Json.isObjectList_iff, Json.isObjectList_iff]
    exact h.objects rfl
  have hplain : (c.on v).isPlainEquality = (c.on w).isPlainEquality := by
    unfold isPlainEquality
    show (_ && !v.isArr && _ && _) = (_ && !w.isArr && _ && _)
    rw [h.shape.isArr_eq]
    rfl
  have hextracted : (c.on v).extracted = (c.on w).extracted := by
    have htype : typeOf? (c.on v).value = typeOf? (c.on w).value := h.type rfl
    unfold extracted
    rw [htype]
    rfl
  unfold compileBody
  show Together _ (if isObjectList v then _ else _) (if isObjectList w then _ else _)
  rw [hobjects, hplain, hextracted]
  split
  · exact .succeeded ⟨rfl, rfl, rfl, by simp [containment, bindOne, bind, withRight, on]⟩
  · split
    · exact .succeeded ⟨rfl, rfl, rfl, by simp [containment, bindOne, bind, withRight, on]⟩
    · exact together_compileColumn { c with field := (c.on w).extracted } h.shape

end Condition

/-! ### Clauses -/

/-- Clauses of one text with equally many parameters. -/
structure Clause.SameText (a b : Clause) : Prop where
  conditions : a.conditions = b.conditions
  params : a.params.length = b.params.length

/-- Lists of clauses, text by text. -/
abbrev Clause.SameTexts : List Clause → List Clause → Prop :=
  List.Forall₂ Clause.SameText

namespace Clause.SameTexts

variable {as bs : List Clause}

theorem conditions (h : SameTexts as bs) :
    as.map Clause.conditions = bs.map Clause.conditions := by
  induction h with
  | nil => rfl
  | cons hab _ ih => rw [List.map_cons, List.map_cons, hab.conditions, ih]

theorem params (h : SameTexts as bs) : (allParams as).length = (allParams bs).length := by
  induction h with
  | nil => rfl
  | cons hab _ ih =>
    simp only [allParams, List.flatMap_cons, List.length_append] at ih ⊢
    rw [hab.params, ih]

theorem conjunction (h : SameTexts as bs) :
    SameText (Clause.conjunction as) (Clause.conjunction bs) := by
  cases h with
  | nil => exact ⟨rfl, rfl⟩
  | cons hab hrest =>
    have h : SameTexts (_ :: _) (_ :: _) := .cons hab hrest
    exact ⟨congrArg (" AND ".intercalate ·) h.conditions, h.params⟩

theorem group (connective : Connective) (h : SameTexts as bs) :
    SameText (Clause.group connective as) (Clause.group connective bs) := by
  cases h with
  | nil => exact ⟨rfl, rfl⟩
  | @cons a b as bs hab hrest =>
    have h : SameTexts (a :: as) (b :: bs) := .cons hab hrest
    have hbranches : ∀ cs : List Clause, cs.map (fun c => "(" ++ c.conditions ++ ")")
        = (cs.map Clause.conditions).map fun text => "(" ++ text ++ ")" := by
      intro cs
      rw [List.map_map]
      rfl
    refine ⟨?_, h.params⟩
    show "(" ++ (joiner connective).intercalate _ ++ ")"
      = "(" ++ (joiner connective).intercalate _ ++ ")"
    rw [hbranches, hbranches, h.conditions]

end Clause.SameTexts

/-! ### Criteria -/

namespace Criteria

variable {storage : Storage}

mutual

/-- Entries with the same keys and groups and alike values. -/
inductive EntryAlike (storage : Storage) : Criterion → Criterion → Prop
  | predicate (key : String) {v w : Json} (h : v.Alike storage w) :
      EntryAlike storage (.predicate key v) (.predicate key w)
  | group (connective : Connective) {branches branches' : List (List Criterion)}
      (h : BranchesAlike storage branches branches') :
      EntryAlike storage (.group connective branches) (.group connective branches')

/-- Criteria that are alike entry by entry. -/
inductive Alike (storage : Storage) : List Criterion → List Criterion → Prop
  | nil : Alike storage [] []
  | cons {entry entry' : Criterion} {entries entries' : List Criterion}
      (h : EntryAlike storage entry entry') (hrest : Alike storage entries entries') :
      Alike storage (entry :: entries) (entry' :: entries')

/-- Branches that are alike one by one. -/
inductive BranchesAlike (storage : Storage) :
    List (List Criterion) → List (List Criterion) → Prop
  | nil : BranchesAlike storage [] []
  | cons {branch branch' : List Criterion} {branches branches' : List (List Criterion)}
      (h : Alike storage branch branch') (hrest : BranchesAlike storage branches branches') :
      BranchesAlike storage (branch :: branches) (branch' :: branches')

end

variable (target : Target)

theorem together_predicateClause (siblings siblings' : Criteria) (offset : Nat) (key : String)
    {v w : Json} (h : v.Alike target.storage w) :
    Together Clause.SameText (predicateClause target siblings offset key v)
      (predicateClause target siblings' offset key w) := by
  unfold predicateClause
  dsimp only
  -- the two conditions differ in their value alone
  rw [← Condition.on_start _ _ .null v, ← Condition.on_start _ _ .null w]
  generalize Condition.start (Key.parse key) _ .null (offset + 1) = c
  have hclause : ∀ a b : Condition, a.SameText b →
      Together Clause.SameText (ε := CriteriaFault) (.ok ⟨a.predicate, a.params⟩)
        (.ok ⟨b.predicate, b.params⟩) :=
    fun a b hab => .succeeded ⟨hab.predicate_eq, hab.params⟩
  split
  · next hbody =>
    rw [hbody.1] at h
    exact (Condition.together_compileBody c h _ _).bind hclause
  · exact (Condition.together_compileColumn c h.shape).bind hclause

mutual

theorem together_entryClause (siblings siblings' : Criteria) (offset : Nat) :
    ∀ {entry entry' : Criterion}, EntryAlike target.storage entry entry' →
      Together Clause.SameText (entryClause target siblings offset entry)
        (entryClause target siblings' offset entry')
  | _, _, .predicate key h => by
    rw [entryClause, entryClause]
    exact together_predicateClause target siblings siblings' offset key h
  | _, _, .group connective h => by
    rw [entryClause, entryClause]
    exact (together_branchClauses offset h).bind fun _ _ hclauses =>
      .succeeded (hclauses.group connective)

/-- Alike entries: the number of parameters of an entry, which the next one
starts after, is the same on both sides. -/
theorem together_entryClauses (siblings siblings' : Criteria) (offset : Nat) :
    ∀ {entries entries' : List Criterion}, Alike target.storage entries entries' →
      Together Clause.SameTexts (entryClauses target siblings offset entries)
        (entryClauses target siblings' offset entries')
  | _, _, .nil => .succeeded .nil
  | _, _, .cons h hrest => by
    rw [entryClauses, entryClauses]
    refine (together_entryClause siblings siblings' offset h).bind fun a b hab => ?_
    rw [hab.params]
    exact (together_entryClauses siblings siblings' _ hrest).bind fun _ _ hclauses =>
      .succeeded (.cons hab hclauses)

theorem together_branchClauses (offset : Nat) :
    ∀ {branches branches' : List (List Criterion)},
      BranchesAlike target.storage branches branches' →
      Together Clause.SameTexts (branchClauses target offset branches)
        (branchClauses target offset branches')
  | _, _, .nil => .succeeded .nil
  | _, _, @BranchesAlike.cons _ branch branch' _ _ h hrest => by
    rw [branchClauses, branchClauses]
    refine (together_entryClauses branch branch' offset h).bind fun as bs hentries => ?_
    have hclause := hentries.conjunction
    dsimp only
    rw [hclause.params]
    exact (together_branchClauses _ hrest).bind fun _ _ hclauses =>
      .succeeded (.cons hclause hclauses)

end

/-- Criteria that are alike have the same text and equally many parameters, or
none of them compiles. -/
theorem together_compile (offset : Nat) {c d : Criteria} (h : Alike target.storage c d) :
    Together Clause.SameText (compile target offset c) (compile target offset d) :=
  (together_entryClauses target c d offset h).bind fun _ _ hclauses =>
    .succeeded hclauses.conjunction

/-- A text with quotes and a placeholder in a list, in a document table. -/
theorem together_compile_quotes :
    Alike .document
        [.predicate "a >" (.str "x"), .group .any [[.predicate "b <>" (.arr [.str "y", .null])]]]
        [.predicate "a >" (.str "' OR TRUE --"),
          .group .any [[.predicate "b <>" (.arr [.str "$1", .obj []])]]]
      ∧ Together Clause.SameText
        (compile ⟨.document, ["id"]⟩ 4
          [.predicate "a >" (.str "x"), .group .any [[.predicate "b <>" (.arr [.str "y", .null])]]])
        (compile ⟨.document, ["id"]⟩ 4
          [.predicate "a >" (.str "' OR TRUE --"),
            .group .any [[.predicate "b <>" (.arr [.str "$1", .obj []])]]]) := by
  have htext : (Json.str "x").Alike .document (.str "' OR TRUE --") := by
    refine ⟨.plain (.str _) (.str _), fun _ => rfl, fun _ => ?_⟩
    rw [← Json.isObjectList_iff, ← Json.isObjectList_iff]
    decide
  have hlist : (Json.arr [.str "y", .null]).Alike .document (.arr [.str "$1", .obj []]) := by
    refine ⟨.arr rfl, fun _ => rfl, fun _ => ?_⟩
    rw [← Json.isObjectList_iff, ← Json.isObjectList_iff]
    decide
  have h : Alike .document
      [.predicate "a >" (.str "x"), .group .any [[.predicate "b <>" (.arr [.str "y", .null])]]]
      [.predicate "a >" (.str "' OR TRUE --"),
        .group .any [[.predicate "b <>" (.arr [.str "$1", .obj []])]]] :=
    .cons (.predicate "a >" htext)
      (.cons (.group .any (.cons (.cons (.predicate "b <>" hlist) .nil) .nil)) .nil)
  exact ⟨h, together_compile ⟨.document, ["id"]⟩ 4 h⟩

end Criteria

end CriteriaSql
