/-
CriteriaSql/Proofs/Criteria/Outline.lean

Criteria with their predicates compiled.

Compiling criteria does two things at once: it compiles the predicates, one
after the other, and it puts their clauses together along the tree.  An
`Outline` is what lies between: the tree, with the clause of each predicate at
its leaf.  The compiler is the outline of the criteria followed by a function of
the outline alone (`entryClauses_eq`, `compile_eq_ok_iff`), and the leaves are
the predicates, compiled from left to right where they stand, each with the
number of parameters before it as its offset (`placed_of_outlines`).

What holds of compiled criteria is then proved in two independent parts:
about trees by `Outline.induct`, and about chains of predicates by induction on
the list.
-/
import CriteriaSql.Proofs.Criteria.Predicate
import Mathlib.Data.List.Forall2

namespace CriteriaSql

/-! ### Outlines -/

/-- An entry of criteria with its predicates compiled. -/
inductive Outline where
  | predicate (clause : Clause)
  | group (connective : Connective) (branches : List (List Outline))

namespace Outline

mutual

/-- The clause of an entry. -/
def clause : Outline → Clause
  | .predicate c => c
  | .group connective branches => Clause.group connective (branchClauses branches)

/-- The clauses of entries. -/
def clauses : List Outline → List Clause
  | [] => []
  | o :: os => o.clause :: clauses os

/-- The clauses of branches. -/
def branchClauses : List (List Outline) → List Clause
  | [] => []
  | os :: branches => Clause.conjunction (clauses os) :: branchClauses branches

end

mutual

/-- The clauses of the predicates of an entry, from left to right. -/
def leaves : Outline → List Clause
  | .predicate c => [c]
  | .group _ branches => branchLeaves branches

/-- The clauses of the predicates of entries. -/
def entryLeaves : List Outline → List Clause
  | [] => []
  | o :: os => o.leaves ++ entryLeaves os

/-- The clauses of the predicates of branches. -/
def branchLeaves : List (List Outline) → List Clause
  | [] => []
  | os :: branches => entryLeaves os ++ branchLeaves branches

end

theorem clauses_eq_map (os : List Outline) : clauses os = os.map clause := by
  induction os with
  | nil => rfl
  | cons o os ih => rw [clauses, ih, List.map_cons]

theorem branchClauses_eq_map (branches : List (List Outline)) :
    branchClauses branches = branches.map fun os => Clause.conjunction (clauses os) := by
  induction branches with
  | nil => rfl
  | cons os branches ih => rw [branchClauses, ih, List.map_cons]

theorem entryLeaves_eq_flatMap (os : List Outline) : entryLeaves os = os.flatMap leaves := by
  induction os with
  | nil => rfl
  | cons o os ih => rw [entryLeaves, ih, List.flatMap_cons]

theorem branchLeaves_eq_flatMap (branches : List (List Outline)) :
    branchLeaves branches = branches.flatMap entryLeaves := by
  induction branches with
  | nil => rfl
  | cons os branches ih => rw [branchLeaves, ih, List.flatMap_cons]

theorem mem_entryLeaves {os : List Outline} {o : Outline} (ho : o ∈ os) {c : Clause}
    (hc : c ∈ o.leaves) : c ∈ entryLeaves os := by
  rw [entryLeaves_eq_flatMap]
  exact List.mem_flatMap.mpr ⟨o, ho, hc⟩

theorem mem_branchLeaves {branches : List (List Outline)} {os : List Outline}
    (hos : os ∈ branches) {c : Clause} (hc : c ∈ entryLeaves os) :
    c ∈ branchLeaves branches := by
  rw [branchLeaves_eq_flatMap]
  exact List.mem_flatMap.mpr ⟨os, hos, hc⟩

/-- Induction on the tree: what holds of predicates, and of a group when it
holds of every entry of its branches, holds of every outline. -/
@[induction_eliminator] theorem induct {P : Outline → Prop} (predicate : ∀ c, P (.predicate c))
    (group : ∀ connective branches, (∀ os ∈ branches, ∀ o ∈ os, P o) →
      P (.group connective branches)) (o : Outline) : P o := by
  -- branches and entries keep what their members have
  refine @Outline.rec P (fun branches => ∀ os ∈ branches, ∀ o ∈ os, P o)
    (fun os => ∀ o ∈ os, P o) predicate group ?_ ?_ ?_ ?_ o
  · intro os hos
    cases hos
  · intro os branches hos hbranches os' hos'
    rcases List.mem_cons.mp hos' with rfl | hos'
    · exact hos
    · exact hbranches os' hos'
  · intro o ho
    cases ho
  · intro o os ho hos o' ho'
    rcases List.mem_cons.mp ho' with rfl | ho'
    · exact ho
    · exact hos o' ho'

/-! ### Parameters -/

/-- The values of clauses are the values of what they are put together from. -/
theorem params_conjunction (cs : List Clause) :
    (Clause.conjunction cs).params = cs.flatMap Clause.params := by
  cases cs with
  | nil => rfl
  | cons c cs => rfl

theorem params_group (connective : Connective) (cs : List Clause) :
    (Clause.group connective cs).params = cs.flatMap Clause.params := by
  cases cs with
  | nil => cases connective <;> rfl
  | cons c cs => rfl

/-- The parameters of a tree are those of its predicates, in order. -/
theorem params_clause (o : Outline) : o.clause.params = o.leaves.flatMap Clause.params := by
  induction o with
  | predicate c => rw [clause, leaves, List.flatMap_singleton]
  | group connective branches ih =>
    have hbranch : ∀ os ∈ branches,
        (Clause.conjunction (clauses os)).params = (entryLeaves os).flatMap Clause.params := by
      intro os hos
      rw [params_conjunction, clauses_eq_map, entryLeaves_eq_flatMap, List.flatMap_map,
        List.flatMap_assoc]
      apply List.flatMap_congr
      exact ih os hos
    rw [clause, leaves, params_group, branchClauses_eq_map, branchLeaves_eq_flatMap,
      List.flatMap_map, List.flatMap_assoc]
    exact List.flatMap_congr hbranch

theorem params_clauses (os : List Outline) :
    (clauses os).flatMap Clause.params = (entryLeaves os).flatMap Clause.params := by
  rw [clauses_eq_map, entryLeaves_eq_flatMap, List.flatMap_map, List.flatMap_assoc]
  apply List.flatMap_congr
  intro o _
  exact params_clause o

end Outline

namespace Criteria

/-! ### The outline of criteria -/

mutual

/-- The outline of one entry of the criteria `siblings`, after `offset`
parameters. -/
def outlineOf (target : Target) (siblings : Criteria) (offset : Nat) :
    Criterion → Except CriteriaFault Outline
  | .predicate key value => do
    let clause ← predicateClause target siblings offset key value
    return .predicate clause
  | .group connective branches => do
    let branches ← branchOutlines target offset branches
    return .group connective branches

/-- The outlines of entries of the criteria `siblings`, after `offset`
parameters. -/
def outlines (target : Target) (siblings : Criteria) (offset : Nat) :
    List Criterion → Except CriteriaFault (List Outline)
  | [] => .ok []
  | entry :: entries => do
    let o ← outlineOf target siblings offset entry
    let os ← outlines target siblings (offset + o.clause.params.length) entries
    return o :: os

/-- The outlines of branches, after `offset` parameters. -/
def branchOutlines (target : Target) (offset : Nat) :
    List (List Criterion) → Except CriteriaFault (List (List Outline))
  | [] => .ok []
  | branch :: branches => do
    let os ← outlines target branch offset branch
    let offset := offset + (Clause.conjunction (Outline.clauses os)).params.length
    let rest ← branchOutlines target offset branches
    return os :: rest

end

mutual

theorem entryClause_eq (target : Target) (siblings : Criteria) (offset : Nat) :
    ∀ entry : Criterion, entryClause target siblings offset entry
      = (outlineOf target siblings offset entry).map Outline.clause
  | .predicate key value => by
    rw [entryClause, outlineOf]
    rcases predicateClause target siblings offset key value with e | clause <;> rfl
  | .group connective branches => by
    rw [entryClause, outlineOf, branchClauses_eq target offset branches]
    rcases branchOutlines target offset branches with e | os <;> rfl

/-- Compiling entries is compiling their predicates and putting the clauses
together. -/
theorem entryClauses_eq (target : Target) (siblings : Criteria) (offset : Nat) :
    ∀ entries : List Criterion, entryClauses target siblings offset entries
      = (outlines target siblings offset entries).map Outline.clauses
  | [] => rfl
  | entry :: entries => by
    rw [entryClauses, outlines, entryClause_eq target siblings offset entry]
    rcases outlineOf target siblings offset entry with e | o
    · rfl
    · -- the entries that follow start after the parameters of this one
      show (entryClauses target siblings (offset + o.clause.params.length) entries >>= _) = _
      rw [entryClauses_eq target siblings _ entries]
      show _ = Except.map _ (outlines target siblings (offset + o.clause.params.length) entries
        >>= _)
      rcases outlines target siblings (offset + o.clause.params.length) entries with e | os <;> rfl

theorem branchClauses_eq (target : Target) (offset : Nat) :
    ∀ branches : List (List Criterion), branchClauses target offset branches
      = (branchOutlines target offset branches).map Outline.branchClauses
  | [] => rfl
  | branch :: branches => by
    rw [branchClauses, branchOutlines, entryClauses_eq target branch offset branch]
    rcases outlines target branch offset branch with e | os
    · rfl
    · have hrest := branchClauses_eq target
        (offset + (Clause.conjunction (Outline.clauses os)).params.length) branches
      show (branchClauses target
        (offset + (Clause.conjunction (Outline.clauses os)).params.length) branches >>= _) = _
      rw [hrest]
      show _ = Except.map _ (branchOutlines target
        (offset + (Clause.conjunction (Outline.clauses os)).params.length) branches >>= _)
      rcases branchOutlines target
        (offset + (Clause.conjunction (Outline.clauses os)).params.length) branches
        with e | rest <;> rfl

end

/-- Criteria compile to the conjunction of their outlines. -/
theorem compile_eq_ok_iff {target : Target} {offset : Nat} {criteria : Criteria}
    {clause : Clause} :
    compile target offset criteria = .ok clause ↔
      ∃ os, outlines target criteria offset criteria = .ok os
        ∧ Clause.conjunction (Outline.clauses os) = clause := by
  rw [compile, entryClauses_eq]
  constructor
  · intro h
    obtain ⟨clauses, hclauses, hclause⟩ := bind_eq_ok_iff.mp h
    obtain ⟨os, hos, rfl⟩ := map_eq_ok_iff.mp hclauses
    exact ⟨os, hos, Except.ok.inj hclause⟩
  · rintro ⟨os, hos, rfl⟩
    rw [hos]
    rfl

/-! ### The predicates of criteria -/

mutual

/-- The keys and values of the predicates of an entry, from left to right. -/
def entryPredicates : Criterion → List (String × Json)
  | .predicate key value => [(key, value)]
  | .group _ branches => branchPredicates branches

/-- The keys and values of the predicates of criteria, from left to right. -/
def predicates : List Criterion → List (String × Json)
  | [] => []
  | entry :: entries => entryPredicates entry ++ predicates entries

/-- The keys and values of the predicates of branches. -/
def branchPredicates : List (List Criterion) → List (String × Json)
  | [] => []
  | branch :: branches => predicates branch ++ branchPredicates branches

end

/-- A predicate and the criteria that it stands in. -/
structure Site where
  siblings : Criteria
  key : String
  value : Json

mutual

/-- The predicates of an entry of the criteria `siblings`, where they stand. -/
def entrySites (siblings : Criteria) : Criterion → List Site
  | .predicate key value => [⟨siblings, key, value⟩]
  | .group _ branches => branchSites branches

/-- The predicates of entries of the criteria `siblings`, where they stand. -/
def sitesIn (siblings : Criteria) : List Criterion → List Site
  | [] => []
  | entry :: entries => entrySites siblings entry ++ sitesIn siblings entries

/-- The predicates of branches, where they stand. -/
def branchSites : List (List Criterion) → List Site
  | [] => []
  | branch :: branches => sitesIn branch branch ++ branchSites branches

end

/-- The predicates of criteria where they stand, from left to right. -/
def sites (criteria : Criteria) : List Site :=
  sitesIn criteria criteria

mutual

theorem map_entrySites (siblings : Criteria) : ∀ entry : Criterion,
    (entrySites siblings entry).map (fun s => (s.key, s.value)) = entryPredicates entry
  | .predicate _ _ => rfl
  | .group _ branches => map_branchSites branches

/-- Where predicates stand does not change which there are. -/
theorem map_sitesIn (siblings : Criteria) : ∀ entries : List Criterion,
    (sitesIn siblings entries).map (fun s => (s.key, s.value)) = predicates entries
  | [] => rfl
  | entry :: entries => by
    rw [sitesIn, predicates, List.map_append, map_entrySites siblings entry,
      map_sitesIn siblings entries]

theorem map_branchSites : ∀ branches : List (List Criterion),
    (branchSites branches).map (fun s => (s.key, s.value)) = branchPredicates branches
  | [] => rfl
  | branch :: branches => by
    rw [branchSites, branchPredicates, List.map_append, map_sitesIn branch branch,
      map_branchSites branches]

end

/-- Predicates and their clauses, each compiled where it stands and after the
parameters of those before it. -/
inductive Placed (target : Target) : Nat → List Site → List Clause → Prop
  | nil (offset : Nat) : Placed target offset [] []
  | cons {offset : Nat} {s : Site} {clause : Clause} {ss : List Site} {cs : List Clause}
      (hclause : predicateClause target s.siblings offset s.key s.value = .ok clause)
      (hrest : Placed target (offset + clause.params.length) ss cs) :
      Placed target offset (s :: ss) (clause :: cs)

theorem Placed.append {target : Target} {offset : Nat} {ss ss' : List Site}
    {cs cs' : List Clause} (h : Placed target offset ss cs)
    (h' : Placed target (offset + (cs.flatMap Clause.params).length) ss' cs') :
    Placed target offset (ss ++ ss') (cs ++ cs') := by
  induction h with
  | nil offset => exact h'
  | cons hclause _ ih =>
    refine .cons hclause (ih ?_)
    rwa [List.flatMap_cons, List.length_append, ← Nat.add_assoc] at h'

/-- Every predicate is compiled after the parameters before its own. -/
theorem Placed.forall₂ {target : Target} {offset n : Nat} {before : List Json} {ss : List Site}
    {cs : List Clause} (h : Placed target n ss cs) (hn : n = offset + before.length) :
    List.Forall₂ (fun s c => s ∈ ss ∧ ∃ front back,
        before ++ cs.flatMap Clause.params = front ++ c.params ++ back
        ∧ predicateClause target s.siblings (offset + front.length) s.key s.value = .ok c)
      ss cs := by
  induction h generalizing before with
  | nil n => exact .nil
  | @cons n s clause ss cs hclause _ ih =>
    subst hn
    refine .cons ⟨List.mem_cons_self, before, cs.flatMap Clause.params, ?_, hclause⟩ ?_
    · rw [List.flatMap_cons, List.append_assoc]
    · have hlength : offset + before.length + clause.params.length
          = offset + (before ++ clause.params).length := by
        rw [List.length_append, Nat.add_assoc]
      refine (ih hlength).imp ?_
      rintro s' c ⟨hmem, front, back, hparams, hclause'⟩
      rw [List.flatMap_cons, ← List.append_assoc]
      exact ⟨List.mem_cons_of_mem s hmem, front, back, hparams, hclause'⟩

mutual

theorem placed_of_outlineOf {target : Target} {siblings : Criteria} {offset : Nat} :
    ∀ {entry : Criterion} {o : Outline}, outlineOf target siblings offset entry = .ok o →
      Placed target offset (entrySites siblings entry) o.leaves
  | .predicate key value, o => by
    intro h
    rw [outlineOf] at h
    obtain ⟨clause, hclause, ho⟩ := bind_eq_ok_iff.mp h
    obtain rfl := Except.ok.inj ho
    exact .cons hclause (.nil _)
  | .group connective branches, o => by
    intro h
    rw [outlineOf] at h
    obtain ⟨os, hos, ho⟩ := bind_eq_ok_iff.mp h
    obtain rfl := Except.ok.inj ho
    exact placed_of_branchOutlines hos

/-- The leaves of the outlines of entries are their predicates, compiled in
order and where they stand. -/
theorem placed_of_outlines {target : Target} {siblings : Criteria} {offset : Nat} :
    ∀ {entries : List Criterion} {os : List Outline},
      outlines target siblings offset entries = .ok os →
      Placed target offset (sitesIn siblings entries) (Outline.entryLeaves os)
  | [], os => by
    intro h
    obtain rfl := Except.ok.inj h
    exact .nil offset
  | entry :: entries, os => by
    intro h
    rw [outlines] at h
    obtain ⟨o, ho, h⟩ := bind_eq_ok_iff.mp h
    obtain ⟨rest, hrest, hos⟩ := bind_eq_ok_iff.mp h
    obtain rfl := Except.ok.inj hos
    refine (placed_of_outlineOf ho).append ?_
    -- the compiler counts the parameters of the clause, a chain those of its leaves
    rw [← Outline.params_clause]
    exact placed_of_outlines hrest

theorem placed_of_branchOutlines {target : Target} {offset : Nat} :
    ∀ {branches : List (List Criterion)} {os : List (List Outline)},
      branchOutlines target offset branches = .ok os →
      Placed target offset (branchSites branches) (Outline.branchLeaves os)
  | [], os => by
    intro h
    obtain rfl := Except.ok.inj h
    exact .nil offset
  | branch :: branches, os => by
    intro h
    rw [branchOutlines] at h
    obtain ⟨o, ho, h⟩ := bind_eq_ok_iff.mp h
    obtain ⟨rest, hrest, hos⟩ := bind_eq_ok_iff.mp h
    obtain rfl := Except.ok.inj hos
    refine (placed_of_outlines ho).append ?_
    rw [← Outline.params_clauses, ← Outline.params_conjunction]
    exact placed_of_branchOutlines hrest

end

/-- Predicates and their clauses, each compiled after the parameters of those
before it. -/
inductive Chained (target : Target) : Nat → List (String × Json) → List Clause → Prop
  | nil (offset : Nat) : Chained target offset [] []
  | cons {offset : Nat} {siblings : Criteria} {key : String} {value : Json} {clause : Clause}
      {ps : List (String × Json)} {cs : List Clause}
      (hclause : predicateClause target siblings offset key value = .ok clause)
      (hrest : Chained target (offset + clause.params.length) ps cs) :
      Chained target offset ((key, value) :: ps) (clause :: cs)

theorem Placed.chained {target : Target} {offset : Nat} {ss : List Site} {cs : List Clause}
    (h : Placed target offset ss cs) :
    Chained target offset (ss.map fun s => (s.key, s.value)) cs := by
  induction h with
  | nil offset => exact .nil offset
  | cons hclause _ ih => exact .cons hclause ih

/-- The leaves of the outlines of entries are their predicates, compiled in
order. -/
theorem chained_of_outlines {target : Target} {siblings : Criteria} {offset : Nat}
    {entries : List Criterion} {os : List Outline}
    (h : outlines target siblings offset entries = .ok os) :
    Chained target offset (predicates entries) (Outline.entryLeaves os) := by
  rw [← map_sitesIn siblings]
  exact (placed_of_outlines h).chained

/-- Every leaf is the clause of a predicate. -/
theorem Chained.exists_predicate {target : Target} {offset : Nat} {ps : List (String × Json)}
    {cs : List Clause} (h : Chained target offset ps cs) {clause : Clause} (hc : clause ∈ cs) :
    ∃ siblings offset key value, (key, value) ∈ ps
      ∧ predicateClause target siblings offset key value = .ok clause := by
  induction h with
  | nil => cases hc
  | @cons offset siblings key value c ps cs hclause _ ih =>
    rcases List.mem_cons.mp hc with rfl | hc
    · exact ⟨siblings, offset, key, value, List.mem_cons_self, hclause⟩
    · obtain ⟨siblings', offset', key', value', hmem, hclause'⟩ := ih hc
      exact ⟨siblings', offset', key', value', List.mem_cons_of_mem _ hmem, hclause'⟩

end Criteria

end CriteriaSql
