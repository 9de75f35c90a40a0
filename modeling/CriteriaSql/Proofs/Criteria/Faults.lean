/-
CriteriaSql/Proofs/Criteria/Faults.lean

When criteria are refused, and with which complaint.

Reading refuses a value for its shape alone: the values of `or` and `and`, at
any depth of groups, must be objects or lists of objects (`exists_ofJson_iff`).
Compiling refuses predicates that do not fit their operator: BETWEEN without
two bounds, and IS with a value that is no constant (`Complaint`).  What one
predicate is refused for depends on its key and value alone
(`predicateClause_eq_error_iff`), not on its siblings or its number, so that
the compiler reports the first complaint in the order of the text
(`compile_eq_error_iff`).

Main result: `refused_iff`.
-/
import CriteriaSql.Proofs.Criteria.Outline
import CriteriaSql.Proofs.Criteria.Shape

namespace CriteriaSql

/-! ### The shape of a criteria value -/

namespace Json

/-- The objects that are the branches of a group: one that stands alone, or
those of a list. -/
inductive Branch : Json → Members → Prop
  | single (members : Members) : Branch (.obj members) members
  | item {items : List Json} {members : Members} (h : .obj members ∈ items) :
      Branch (.arr items) members

/-- An object, or a list of objects. -/
def IsGroup (v : Json) : Prop :=
  (∃ members, v = .obj members) ∨ ∃ items, v = .arr items ∧ ∀ item ∈ items, ∃ ms, item = .obj ms

/-- The values of `or` and `and` in an object, and in the branches of these. -/
inductive GroupValue : Members → Json → Prop
  | here {members : Members} {name : String} {value : Json} (hmem : (name, value) ∈ members)
      (hname : name = "or" ∨ name = "and") : GroupValue members value
  | inside {members branch : Members} {name : String} {group value : Json}
      (hmem : (name, group) ∈ members) (hname : name = "or" ∨ name = "and")
      (hbranch : Branch group branch) (h : GroupValue branch value) : GroupValue members value

/-- Every group, at any depth, has objects as branches. -/
def WellGrouped (members : Members) : Prop :=
  ∀ value, GroupValue members value → value.IsGroup

/-- Null, `"*"`, or an object with branches in all its groups. -/
inductive IsCriteria : Json → Prop
  | null : IsCriteria .null
  | wildcard : IsCriteria (.str "*")
  | object {members : Members} (h : WellGrouped members) : IsCriteria (.obj members)

theorem wellGrouped_nil : WellGrouped [] := by
  intro value h
  cases h with
  | here hmem => cases hmem
  | inside hmem => cases hmem

/-- A group is right when it has branches and these are. -/
theorem wellGrouped_cons_iff {name : String} {value : Json} {members : Members} :
    WellGrouped ((name, value) :: members) ↔
      (name = "or" ∨ name = "and" →
        value.IsGroup ∧ ∀ branch, Branch value branch → WellGrouped branch)
      ∧ WellGrouped members := by
  constructor
  · intro h
    refine ⟨fun hname => ⟨h _ (.here List.mem_cons_self hname), ?_⟩, ?_⟩
    · intro branch hbranch inner hinner
      exact h _ (.inside List.mem_cons_self hname hbranch hinner)
    · intro inner hinner
      cases hinner with
      | here hmem hname => exact h _ (.here (List.mem_cons_of_mem _ hmem) hname)
      | inside hmem hname hbranch hinner =>
        exact h _ (.inside (List.mem_cons_of_mem _ hmem) hname hbranch hinner)
  · rintro ⟨hfirst, hrest⟩ inner hinner
    cases hinner with
    | here hmem hname =>
      rcases List.mem_cons.mp hmem with heq | hmem
      · obtain ⟨rfl, rfl⟩ := Prod.mk.inj heq
        exact (hfirst hname).1
      · exact hrest _ (.here hmem hname)
    | inside hmem hname hbranch hinner =>
      rcases List.mem_cons.mp hmem with heq | hmem
      · obtain ⟨rfl, rfl⟩ := Prod.mk.inj heq
        exact (hfirst hname).2 _ hbranch _ hinner
      · exact hrest _ (.inside hmem hname hbranch hinner)

/-- The branches of a list are right when every item is an object that is. -/
theorem isGroup_arr_iff {items : List Json} :
    ((Json.arr items).IsGroup ∧ ∀ branch, Branch (.arr items) branch → WellGrouped branch)
      ↔ ∀ item ∈ items, ∃ members, item = .obj members ∧ WellGrouped members := by
  constructor
  · rintro ⟨hgroup, hbranches⟩ item hitem
    rcases hgroup with ⟨members, h⟩ | ⟨items', h, hall⟩
    · cases h
    · obtain rfl := Json.arr.inj h
      obtain ⟨members, rfl⟩ := hall item hitem
      exact ⟨members, rfl, hbranches members (.item hitem)⟩
  · intro h
    refine ⟨Or.inr ⟨items, rfl, fun item hitem => ?_⟩, ?_⟩
    · obtain ⟨members, hmembers, -⟩ := h item hitem
      exact ⟨members, hmembers⟩
    · intro branch hbranch
      cases hbranch with
      | item hmem =>
        obtain ⟨members, hmembers, hwell⟩ := h _ hmem
        obtain rfl := Json.obj.inj hmembers
        exact hwell

end Json

open Json (WellGrouped IsCriteria Branch IsGroup)

theorem Connective.ofName?_eq_none_iff {name : String} :
    Connective.ofName? name = none ↔ ¬(name = "or" ∨ name = "and") := by
  unfold Connective.ofName?
  by_cases hor : name = "or"
  · simp [hor]
  · by_cases hand : name = "and" <;> simp [hor, hand]

namespace Criteria

/-! ### Reading -/

mutual

/-- An object is read when all its groups are right. -/
theorem exists_ofMembers_iff :
    ∀ members : Members, (∃ criteria, ofMembers members = .ok criteria) ↔ WellGrouped members
  | [] => ⟨fun _ => Json.wellGrouped_nil, fun _ => ⟨[], rfl⟩⟩
  | (name, value) :: members => by
    rw [Json.wellGrouped_cons_iff, ← exists_ofMembers_iff members, ofMembers]
    rcases hname : Connective.ofName? name with - | connective
    · -- a predicate is read as it is
      have hnot := Connective.ofName?_eq_none_iff.mp hname
      constructor
      · rintro ⟨criteria, h⟩
        obtain ⟨entries, hentries, -⟩ := bind_eq_ok_iff.mp h
        exact ⟨fun h => absurd h hnot, entries, hentries⟩
      · rintro ⟨_, entries, hentries⟩
        refine ⟨.predicate name value :: entries, ?_⟩
        rw [hentries]
        rfl
    · have hconnective : name = "or" ∨ name = "and" := by
        by_contra hnot
        rw [Connective.ofName?_eq_none_iff.mpr hnot] at hname
        cases hname
      rw [exists_both_eq_ok_iff, exists_branchesOf_iff connective value]
      exact and_congr_left' ⟨fun h _ => h, fun h => h hconnective⟩

theorem exists_branchesOf_iff (connective : Connective) :
    ∀ value : Json, (∃ branches, branchesOf connective value = .ok branches)
      ↔ value.IsGroup ∧ ∀ branch, Branch value branch → WellGrouped branch
  | .arr items => by
    rw [branchesOf, exists_branchItems_iff connective items, Json.isGroup_arr_iff]
  | .obj members => by
    rw [branchesOf]
    constructor
    · rintro ⟨branches, h⟩
      obtain ⟨entries, hentries, -⟩ := bind_eq_ok_iff.mp h
      refine ⟨Or.inl ⟨members, rfl⟩, ?_⟩
      intro branch hbranch
      cases hbranch with
      | single => exact (exists_ofMembers_iff members).mp ⟨entries, hentries⟩
    · rintro ⟨-, h⟩
      obtain ⟨entries, hentries⟩ := (exists_ofMembers_iff members).mpr (h members (.single members))
      exact ⟨[entries], by rw [hentries]; rfl⟩
  | .null | .bool _ | .num _ | .str _ => by
    constructor
    · rintro ⟨branches, h⟩
      cases h
    · rintro ⟨⟨members, h⟩ | ⟨items, h, -⟩, -⟩ <;> cases h

theorem exists_branchItems_iff (connective : Connective) :
    ∀ items : List Json, (∃ branches, branchItems connective items = .ok branches)
      ↔ ∀ item ∈ items, ∃ members, item = .obj members ∧ WellGrouped members
  | [] => ⟨fun _ item hitem => absurd hitem List.not_mem_nil, fun _ => ⟨[], rfl⟩⟩
  | .obj members :: items => by
    rw [branchItems, exists_both_eq_ok_iff, exists_ofMembers_iff members,
      exists_branchItems_iff connective items, List.forall_mem_cons]
    apply and_congr_left'
    constructor
    · intro h
      exact ⟨members, rfl, h⟩
    · rintro ⟨members', heq, h⟩
      obtain rfl := Json.obj.inj heq
      exact h
  | .null :: _ | .bool _ :: _ | .num _ :: _ | .str _ :: _ | .arr _ :: _ => by
    constructor
    · rintro ⟨branches, h⟩
      cases h
    · intro h
      obtain ⟨members, heq, -⟩ := h _ List.mem_cons_self
      cases heq

end

/-- Exactly the criteria values are read. -/
theorem exists_ofJson_iff (value : Json) :
    (∃ criteria, ofJson value = .ok criteria) ↔ value.IsCriteria := by
  cases value with
  | null => exact ⟨fun _ => .null, fun _ => ⟨[], rfl⟩⟩
  | obj members =>
    rw [ofJson, exists_ofMembers_iff members]
    constructor
    · exact .object
    · intro h
      cases h with
      | object hwell => exact hwell
  | str s =>
    by_cases hs : s = "*"
    · subst hs
      exact ⟨fun _ => .wildcard, fun _ => ⟨[], rfl⟩⟩
    · rw [ofJson, if_neg hs]
      constructor
      · rintro ⟨criteria, h⟩
        cases h
      · rintro ⟨⟩
        exact absurd rfl hs
  | bool _ | num _ | arr _ =>
    constructor
    · rintro ⟨criteria, h⟩
      cases h
    · rintro ⟨⟩

end Criteria

/-! ### Values that do not fit their operator -/

/-- What is wrong with the value of an operator: BETWEEN takes two bounds, and
IS and IS NOT null or a boolean. -/
inductive Misfit (k : Key) (o : Operation) (value : Json) : CriteriaFault → Prop
  | bounds (hop : o.operator = "BETWEEN") (hvalue : ∀ low high, value ≠ .arr [low, high]) :
      Misfit k o value (.betweenBounds k.column value)
  | constant (hop : o.operator = "IS" ∨ o.operator = "IS NOT") (hnull : value ≠ .null)
      (hbool : ∀ b, value ≠ .bool b) : Misfit k o value (.isLiteral k.column value)

namespace Operation

theorem rule_eq_between_iff {o : Operation} (ho : o ∈ registered.map Prod.snd) :
    o.rule = some .between ↔ o.operator = "BETWEEN" := by
  revert o
  decide

theorem rule_eq_is_iff {o : Operation} (ho : o ∈ registered.map Prod.snd) :
    o.rule = some .is ↔ o.operator = "IS" ∨ o.operator = "IS NOT" := by
  revert o
  decide

end Operation

/-- Only BETWEEN and the operators of constants refuse values. -/
theorem Misfit.rule_eq {k : Key} {o : Operation} {value : Json} {fault : CriteriaFault}
    (ho : o ∈ Operation.registered.map Prod.snd) (h : Misfit k o value fault) :
    o.rule = some .between ∨ o.rule = some .is := by
  cases h with
  | bounds hop => exact Or.inl ((Operation.rule_eq_between_iff ho).mpr hop)
  | constant hop => exact Or.inr ((Operation.rule_eq_is_iff ho).mpr hop)

namespace Condition

variable {c : Condition} {fault : CriteriaFault}

theorem between_eq_error_iff : c.between = .error fault ↔
    (∀ low high, c.value ≠ .arr [low, high]) ∧ fault = .betweenBounds c.key.column c.value := by
  unfold between
  split
  · next low high hvalue =>
    constructor
    · intro h
      cases h
    · rintro ⟨h, -⟩
      exact absurd hvalue (h low high)
  · next hvalue =>
    constructor
    · intro h
      exact ⟨hvalue, (Except.error.inj h).symm⟩
    · rintro ⟨-, rfl⟩
      rfl

theorem constant?_eq_none_iff {value : Json} :
    constant? value = none ↔ value ≠ .null ∧ ∀ b, value ≠ .bool b := by
  rcases value with - | b | n | s | items | members
  · simp [constant?]
  · cases b <;> simp [constant?]
  all_goals simp [constant?]

theorem identity_eq_error_iff : c.identity = .error fault ↔
    (c.value ≠ .null ∧ ∀ b, c.value ≠ .bool b) ∧ fault = .isLiteral c.key.column c.value := by
  rw [← constant?_eq_none_iff]
  unfold identity
  split
  · next hconstant =>
    constructor
    · intro h
      exact ⟨hconstant, (Except.error.inj h).symm⟩
    · rintro ⟨-, rfl⟩
      rfl
  · next constant hconstant =>
    constructor
    · intro h
      cases h
    · rintro ⟨h, -⟩
      rw [hconstant] at h
      cases h

/-- Equality takes every value: it asks for a constant or a list only where the
value is one. -/
theorem equality_ne_error : c.equality ≠ .error fault := by
  intro h
  unfold equality at h
  rcases hvalue : c.value with - | b | n | s | items | members
  · rw [hvalue] at h
    exact (identity_eq_error_iff.mp h).1.1 hvalue
  · rw [hvalue] at h
    exact (identity_eq_error_iff.mp h).1.2 b hvalue
  · rw [hvalue] at h
    cases h
  · rw [hvalue] at h
    cases h
  · rw [hvalue] at h
    replace h : c.membership = .error fault := h
    rw [membership, hvalue] at h
    cases items <;> cases h
  · rw [hvalue] at h
    cases h

/-- Compiling against a column fails exactly where the value does not fit. -/
theorem compileColumn_eq_error_iff (hmem : c.operation ∈ Operation.registered.map Prod.snd) :
    c.compileColumn = .error fault ↔ Misfit c.key c.operation c.value fault := by
  unfold compileColumn
  rcases hrule : c.operation.rule with - | rule
  · constructor
    · intro h
      cases h
    · intro h
      rcases h.rule_eq hmem with h | h <;> rw [hrule] at h <;> cases h
  · cases rule with
    | between =>
      refine between_eq_error_iff.trans ⟨?_, ?_⟩
      · rintro ⟨hvalue, rfl⟩
        exact .bounds ((Operation.rule_eq_between_iff hmem).mp hrule) hvalue
      · intro h
        cases h with
        | bounds hop hvalue => exact ⟨hvalue, rfl⟩
        | constant hop =>
          have := (Operation.rule_eq_is_iff hmem).mpr hop
          rw [hrule] at this
          cases this
    | is =>
      refine identity_eq_error_iff.trans ⟨?_, ?_⟩
      · rintro ⟨⟨hnull, hbool⟩, rfl⟩
        exact .constant ((Operation.rule_eq_is_iff hmem).mp hrule) hnull hbool
      · intro h
        cases h with
        | constant hop hnull hbool => exact ⟨⟨hnull, hbool⟩, rfl⟩
        | bounds hop =>
          have := (Operation.rule_eq_between_iff hmem).mpr hop
          rw [hrule] at this
          cases this
    | equality =>
      constructor
      · intro h
        exact absurd h equality_ne_error
      · intro h
        rcases h.rule_eq hmem with h | h <;> rw [hrule] at h <;> cases h
    | arrayLiteral =>
      constructor
      · intro h
        cases h
      · intro h
        rcases h.rule_eq hmem with h | h <;> rw [hrule] at h <;> cases h

/-- Against the body, a list of objects is matched whatever the operator is. -/
theorem compileBody_eq_error_iff {group : Json}
    (hmem : c.operation ∈ Operation.registered.map Prod.snd) :
    c.compileBody group = .error fault ↔
      ¬c.value.IsObjectList ∧ Misfit c.key c.operation c.value fault := by
  unfold compileBody
  rw [← Json.isObjectList_iff]
  by_cases hobjects : isObjectList c.value = true
  · rw [if_pos hobjects]
    constructor
    · intro h
      cases h
    · rintro ⟨h, -⟩
      exact absurd hobjects h
  · rw [if_neg hobjects, and_iff_right hobjects]
    by_cases hplain : c.isPlainEquality = true
    · rw [if_pos hplain]
      constructor
      · intro h
        cases h
      · intro h
        -- the operator of a plain equality refuses nothing
        have hop : c.operation.operator = "=" := by
          simp only [isPlainEquality, Bool.and_eq_true, decide_eq_true_eq] at hplain
          exact hplain.1.1.1
        cases h with
        | bounds h => exact absurd (hop.symm.trans h) (by decide)
        | constant h =>
          rcases h with h | h <;> exact absurd (hop.symm.trans h) (by decide)
    · rw [if_neg hplain]
      exact compileColumn_eq_error_iff (c := { c with field := c.extracted }) hmem

end Condition

/-! ### Predicates that are refused -/

/-- In a document table, a list of objects is matched as a whole, keys
excepted. -/
def Target.MatchesWhole (target : Target) (key : String) (value : Json) : Prop :=
  target.storage = .document ∧ (Key.parse key).column ∉ target.pk ∧ value.IsObjectList

/-- What is wrong with a predicate: its value does not fit its operator, and is
not matched as a whole. -/
structure Complaint (target : Target) (key : String) (value : Json) (fault : CriteriaFault) :
    Prop where
  not_whole : ¬target.MatchesWhole key value
  misfit : Misfit (Key.parse key) (Operation.resolve (Key.parse key).operatorText) value fault

/-- The complaint about the first predicate that is refused. -/
def FirstComplaint (target : Target) (ps : List (String × Json)) (fault : CriteriaFault) : Prop :=
  ∃ before key value after, ps = before ++ (key, value) :: after
    ∧ (∀ p ∈ before, ∀ e, ¬Complaint target p.1 p.2 e) ∧ Complaint target key value fault

variable {target : Target} {fault : CriteriaFault}

/-- A complaint is reported with the field of the key and the value. -/
theorem Misfit.message_eq {k : Key} {o : Operation} {value : Json} (h : Misfit k o value fault) :
    (Error.invalidCriteria fault).message = "Invalid criteria: "
          ++ ("BETWEEN on " ++ k.column ++ " needs a two-element array, got " ++ value.text)
      ∨ (Error.invalidCriteria fault).message = "Invalid criteria: "
          ++ ("IS on " ++ k.column ++ " accepts only null or a boolean, got " ++ value.text) := by
  cases h with
  | bounds => exact Or.inl rfl
  | constant => exact Or.inr rfl

theorem not_firstComplaint_nil : ¬FirstComplaint target [] fault := by
  rintro ⟨before, key, value, after, h, -⟩
  exact absurd h.symm (List.append_ne_nil_of_right_ne_nil _ (List.cons_ne_nil _ _))

theorem firstComplaint_cons_iff {key : String} {value : Json} {ps : List (String × Json)} :
    FirstComplaint target ((key, value) :: ps) fault ↔
      Complaint target key value fault
        ∨ (∀ e, ¬Complaint target key value e) ∧ FirstComplaint target ps fault := by
  constructor
  · rintro ⟨before, key', value', after, heq, hbefore, h⟩
    rcases before with - | ⟨p, before⟩
    · obtain ⟨hp, -⟩ := List.cons.inj heq
      obtain ⟨rfl, rfl⟩ := Prod.mk.inj hp
      exact Or.inl h
    · obtain ⟨rfl, rfl⟩ := List.cons.inj heq
      refine Or.inr ⟨hbefore (key, value) List.mem_cons_self, before, key', value', after, rfl, ?_, h⟩
      exact fun p hp => hbefore p (List.mem_cons_of_mem _ hp)
  · rintro (h | ⟨hfirst, before, key', value', after, rfl, hbefore, h⟩)
    · exact ⟨[], key, value, ps, rfl, fun p hp => absurd hp List.not_mem_nil, h⟩
    · refine ⟨(key, value) :: before, key', value', after, rfl, ?_, h⟩
      intro p hp
      rcases List.mem_cons.mp hp with rfl | hp
      · exact hfirst
      · exact hbefore p hp

theorem firstComplaint_append_iff {ps qs : List (String × Json)} :
    FirstComplaint target (ps ++ qs) fault ↔ FirstComplaint target ps fault
      ∨ (∀ e, ¬FirstComplaint target ps e) ∧ FirstComplaint target qs fault := by
  induction ps with
  | nil => simp [not_firstComplaint_nil]
  | cons p ps ih =>
    obtain ⟨key, value⟩ := p
    simp only [List.cons_append, firstComplaint_cons_iff, ih, not_or, not_and, forall_and]
    tauto

/-- A list has a first complaint when any of its predicates is refused. -/
theorem exists_firstComplaint_iff {ps : List (String × Json)} :
    (∃ fault, FirstComplaint target ps fault)
      ↔ ∃ p ∈ ps, ∃ fault, Complaint target p.1 p.2 fault := by
  induction ps with
  | nil => simp [not_firstComplaint_nil]
  | cons p ps ih =>
    obtain ⟨key, value⟩ := p
    simp only [firstComplaint_cons_iff, List.exists_mem_cons_iff, exists_or, exists_and_left, ih]
    constructor
    · rintro (h | ⟨-, h⟩)
      · exact Or.inl h
      · exact Or.inr h
    · intro h
      by_cases hfirst : ∃ e, Complaint target key value e
      · exact Or.inl hfirst
      · rcases h with h | h
        · exact Or.inl h
        · exact Or.inr ⟨not_exists.mp hfirst, h⟩

namespace Criteria

/-! ### Compiling -/

/-- A predicate is refused for its key and value, wherever it stands. -/
theorem predicateClause_eq_error_iff {siblings : Criteria} {offset : Nat} {key : String}
    {value : Json} : predicateClause target siblings offset key value = .error fault
      ↔ Complaint target key value fault := by
  have hmem := Operation.resolve_mem (Key.parse key).operatorText
  -- a condition starts with the key, the operation and the value of its predicate
  have hcolumn : ∀ (k : Key) (o : Operation), o ∈ Operation.registered.map Prod.snd →
      ((Condition.start k o value (offset + 1)).compileColumn = .error fault
        ↔ Misfit k o value fault) :=
    fun k o ho => Condition.compileColumn_eq_error_iff (c := .start k o value (offset + 1)) ho
  have hdocument : ∀ (k : Key) (o : Operation), o ∈ Operation.registered.map Prod.snd →
      ((Condition.start k o value (offset + 1)).compileBody siblings.toJson = .error fault
        ↔ ¬value.IsObjectList ∧ Misfit k o value fault) :=
    fun k o ho => Condition.compileBody_eq_error_iff (c := .start k o value (offset + 1)) ho
  unfold predicateClause
  dsimp only
  by_cases hbody : target.storage = .document ∧ (Key.parse key).column ∉ target.pk
  · rw [if_pos hbody, bind_pure_eq_error_iff, hdocument _ _ hmem]
    constructor
    · rintro ⟨hobjects, h⟩
      exact ⟨fun hwhole => hobjects hwhole.2.2, h⟩
    · rintro ⟨hwhole, h⟩
      exact ⟨fun hobjects => hwhole ⟨hbody.1, hbody.2, hobjects⟩, h⟩
  · rw [if_neg hbody, bind_pure_eq_error_iff, hcolumn _ _ hmem]
    constructor
    · intro h
      exact ⟨fun hwhole => hbody ⟨hwhole.1, hwhole.2.1⟩, h⟩
    · exact Complaint.misfit

mutual

theorem entryClause_eq_error_iff (siblings : Criteria) (offset : Nat) (fault : CriteriaFault) :
    ∀ entry : Criterion, entryClause target siblings offset entry = .error fault
      ↔ FirstComplaint target (entryPredicates entry) fault
  | .predicate key value => by
    rw [entryClause, entryPredicates, predicateClause_eq_error_iff, firstComplaint_cons_iff,
      or_iff_left]
    exact fun h => not_firstComplaint_nil h.2
  | .group connective branches => by
    rw [entryClause, entryPredicates, bind_pure_eq_error_iff]
    exact branchClauses_eq_error_iff offset fault branches

/-- Entries are refused for the first complaint about their predicates. -/
theorem entryClauses_eq_error_iff (siblings : Criteria) (offset : Nat) (fault : CriteriaFault) :
    ∀ entries : List Criterion, entryClauses target siblings offset entries = .error fault
      ↔ FirstComplaint target (predicates entries) fault
  | [] => by
    rw [entryClauses, predicates]
    exact iff_of_false (fun h => nomatch h) not_firstComplaint_nil
  | entry :: entries => by
    rw [entryClauses, predicates, firstComplaint_append_iff,
      ← entryClause_eq_error_iff siblings offset fault entry]
    have hfirst : (∀ e, entryClause target siblings offset entry ≠ .error e)
        ↔ ∀ e, ¬FirstComplaint target (entryPredicates entry) e :=
      forall_congr' fun e => not_congr (entryClause_eq_error_iff siblings offset e entry)
    rw [← hfirst]
    -- the number of the next placeholder does not matter
    apply bind_eq_error_iff_of
    intro clause
    rw [bind_pure_eq_error_iff]
    exact entryClauses_eq_error_iff siblings (offset + clause.params.length) fault entries

theorem branchClauses_eq_error_iff (offset : Nat) (fault : CriteriaFault) :
    ∀ branches : List (List Criterion), branchClauses target offset branches = .error fault
      ↔ FirstComplaint target (branchPredicates branches) fault
  | [] => by
    rw [branchClauses, branchPredicates]
    exact iff_of_false (fun h => nomatch h) not_firstComplaint_nil
  | branch :: branches => by
    rw [branchClauses, branchPredicates, firstComplaint_append_iff,
      ← entryClauses_eq_error_iff branch offset fault branch]
    have hfirst : (∀ e, entryClauses target branch offset branch ≠ .error e)
        ↔ ∀ e, ¬FirstComplaint target (predicates branch) e :=
      forall_congr' fun e => not_congr (entryClauses_eq_error_iff branch offset e branch)
    rw [← hfirst]
    apply bind_eq_error_iff_of
    intro entries
    rw [bind_pure_eq_error_iff]
    exact branchClauses_eq_error_iff _ fault branches

end

/-- Criteria are refused for the first complaint about their predicates. -/
theorem compile_eq_error_iff {offset : Nat} {criteria : Criteria} :
    compile target offset criteria = .error fault
      ↔ FirstComplaint target (predicates criteria) fault := by
  rw [compile, bind_pure_eq_error_iff]
  exact entryClauses_eq_error_iff criteria offset fault criteria

/-- Criteria over a table are refused for their shape, or for a predicate. -/
theorem exists_whereClause_eq_error_iff (value : Json) :
    (∃ e, whereClause value = .error e) ↔ ¬value.IsCriteria
      ∨ ∃ criteria, ofJson value = .ok criteria
        ∧ ∃ p ∈ predicates criteria, ∃ e, Complaint ⟨.table, []⟩ p.1 p.2 e := by
  have hread : (∃ e, ofJson value = .error e) ↔ ¬value.IsCriteria := by
    rw [← exists_ofJson_iff, exists_eq_ok_iff, not_forall_not]
  simp only [whereClause, bind_eq_error_iff, exists_or, hread, compile_eq_error_iff]
  apply or_congr_right
  rw [exists_comm]
  simp only [exists_and_left, exists_firstComplaint_iff]

/-- What is refused.  A value is no criteria when it is not null, `"*"` or an
object, or when a group at any depth has something else than objects as
branches.  Criteria do not compile when a predicate has a value that does not
fit its operator, and the error is the complaint about the first of these, with
the field of its key.  A criteria value over a table is refused for the one or
the other. -/
theorem refused_iff (target : Target) (offset : Nat) (value : Json) (criteria : Criteria)
    (fault : CriteriaFault) :
    ((∃ e, ofJson value = .error e) ↔ ¬value.IsCriteria)
      ∧ ((∃ e, compile target offset criteria = .error e)
        ↔ ∃ p ∈ predicates criteria, ∃ e, Complaint target p.1 p.2 e)
      ∧ (compile target offset criteria = .error fault
        ↔ ∃ before key value after, predicates criteria = before ++ (key, value) :: after
          ∧ (∀ p ∈ before, ∀ e, ¬Complaint target p.1 p.2 e)
          ∧ Complaint target key value fault
          ∧ ((Error.invalidCriteria fault).message
              = "Invalid criteria: " ++ ("BETWEEN on " ++ (Key.parse key).column
                ++ " needs a two-element array, got " ++ value.text)
            ∨ (Error.invalidCriteria fault).message
              = "Invalid criteria: " ++ ("IS on " ++ (Key.parse key).column
                ++ " accepts only null or a boolean, got " ++ value.text)))
      ∧ ((∃ e, whereClause value = .error e) ↔ ¬value.IsCriteria
        ∨ ∃ criteria, ofJson value = .ok criteria
          ∧ ∃ p ∈ predicates criteria, ∃ e, Complaint ⟨.table, []⟩ p.1 p.2 e) := by
  refine ⟨?_, ?_, ?_, exists_whereClause_eq_error_iff value⟩
  · rw [← exists_ofJson_iff, exists_eq_ok_iff, not_forall_not]
  · simp only [compile_eq_error_iff, exists_firstComplaint_iff]
  · rw [compile_eq_error_iff]
    constructor
    · rintro ⟨before, key, value, after, hps, hbefore, h⟩
      exact ⟨before, key, value, after, hps, hbefore, h, h.misfit.message_eq⟩
    · rintro ⟨before, key, value, after, hps, hbefore, h, -⟩
      exact ⟨before, key, value, after, hps, hbefore, h⟩

/-- Of two values that do not fit, the one in the group comes first. -/
theorem refused_iff_between :
    compile ⟨.document, ["id"]⟩ 0
        [.predicate "a" (.str "x"), .group .any [[.predicate "b.c between" (.str "y")]],
          .predicate "id is" (.arr [.obj []])]
      = .error (.betweenBounds "b" (.str "y"))
    ∧ (Error.invalidCriteria (.betweenBounds "b" (.str "y"))).message
      = "Invalid criteria: BETWEEN on b needs a two-element array, got \"y\"" := by
  have ha : Key.parse "a" = ⟨"a", [], none, ""⟩ := by decide +kernel
  have hb : Key.parse "b.c between" = ⟨"b", [.member "c"], none, "between"⟩ := by decide +kernel
  have hbetween : Operation.resolve "between" = ⟨"BETWEEN", some .between⟩ := by decide +kernel
  have hfits : ∀ e, ¬Complaint ⟨.document, ["id"]⟩ "a" (.str "x") e := by
    intro e h
    have hmisfit := h.misfit
    rw [ha, Operation.resolve_empty] at hmisfit
    rcases hmisfit.rule_eq List.mem_cons_self with h | h <;> cases h
  have hmisfit : Misfit (Key.parse "b.c between")
      (Operation.resolve (Key.parse "b.c between").operatorText) (.str "y")
      (.betweenBounds "b" (.str "y")) := by
    rw [hb, hbetween]
    exact .bounds rfl fun low high h => nomatch h
  have hcomplaint : Complaint ⟨.document, ["id"]⟩ "b.c between" (.str "y")
      (.betweenBounds "b" (.str "y")) := by
    refine ⟨?_, hmisfit⟩
    rintro ⟨-, -, items, h, -⟩
    cases h
  obtain ⟨-, -, hfirst, -⟩ := refused_iff ⟨.document, ["id"]⟩ 0 .null
    [.predicate "a" (.str "x"), .group .any [[.predicate "b.c between" (.str "y")]],
      .predicate "id is" (.arr [.obj []])] (.betweenBounds "b" (.str "y"))
  refine ⟨hfirst.mpr ⟨[("a", .str "x")], "b.c between", .str "y",
    [("id is", .arr [.obj []])], rfl, ?_, hcomplaint, hmisfit.message_eq⟩, by decide +kernel⟩
  intro p hp
  obtain rfl := List.mem_singleton.mp hp
  exact hfits

end Criteria

end CriteriaSql
