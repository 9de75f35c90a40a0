/-
CriteriaSql/Proofs/Statement/Containment.lean

How far the text of a key reaches.

Whatever a key is, its expressions leave the parentheses around them as they
are, and separate nothing, exactly when its cast does: columns and paths are
quoted, and a cast is not when it is made of the characters of type names,
parentheses and commas among them.  Keys whose casts are self-contained keep
to their place: the parentheses of compiled criteria are then those of the
groups, and each returned field is one item.

Main result: `key_selfContained_iff`.
-/
import CriteriaSql.Options.Basic
import CriteriaSql.Proofs.Criteria.Forest

namespace CriteriaSql

open Sql (SelfContained Whole listItems nests tokens words)

namespace Options

theorem whole_fieldSql (field : String) : Whole (fieldSql field) := by
  unfold fieldSql
  split
  · next h =>
    rw [h]
    exact Sql.whole_of_unquoted (by decide)
  · exact (Key.numbered_field _).whole

theorem selfContained_fieldSql {field : String}
    (h : field ≠ "*" → (Key.parse field).CastContained) : SelfContained (fieldSql field) := by
  unfold fieldSql
  split
  · next hstar =>
    rw [hstar]
    decide
  · next hstar => exact (Key.selfContained_field_iff _).mpr (h hstar)

/-- The named expressions as SQL texts. -/
def exprTexts (o : Options) : List String :=
  o.exprs.map fun e => e.2 ++ " AS " ++ Text.quoteIdent e.1

/-- Each returned field is one item of the projection. -/
theorem listItems_projection {o : Options} (hne : o.fields ≠ [])
    (h : ∀ field ∈ o.fields, field ≠ "*" → (Key.parse field).CastContained) :
    listItems o.projection = o.fields.map (fun field => words (fieldSql field))
      ++ if o.exprTexts.isEmpty then [] else listItems (", ".intercalate o.exprTexts) := by
  have hcolumns : (o.fields.map fieldSql ++ o.exprTexts).isEmpty = false := by
    rw [List.isEmpty_eq_false_iff]
    exact List.append_ne_nil_of_left_ne_nil (fun hnil => hne (List.map_eq_nil_iff.mp hnil)) _
  -- with a field there is a list, and the named expressions come after the fields
  have hprojection : o.projection = ", ".intercalate (o.fields.map fieldSql ++ o.exprTexts) := by
    show (if (o.fields.map fieldSql ++ o.exprTexts).isEmpty then "*"
      else ", ".intercalate (o.fields.map fieldSql ++ o.exprTexts)) = _
    rw [hcolumns]
    rfl
  have hwhole : ∀ t ∈ o.fields.map fieldSql, Whole t := by
    intro t ht
    obtain ⟨field, -, rfl⟩ := List.mem_map.mp ht
    exact whole_fieldSql field
  have hcontained : ∀ t ∈ o.fields.map fieldSql, SelfContained t := by
    intro t ht
    obtain ⟨field, hfield, rfl⟩ := List.mem_map.mp ht
    exact selfContained_fieldSql (h field hfield)
  have hmap : o.fields.map fieldSql ≠ [] := by
    intro hnil
    exact hne (List.map_eq_nil_iff.mp hnil)
  rw [hprojection, Sql.listItems_intercalate hwhole hcontained hmap, List.map_map]
  rfl

end Options

/-- Each expression of a key is self-contained exactly when the cast of the key
is.  When the casts of all keys are, every parenthesis of compiled criteria
outside of the texts of the predicates is one of a group, and every returned
field is one item of the projection. -/
theorem key_selfContained_iff (text : String) (target : Target) (offset : Nat)
    (criteria : Criteria) (o : Options) :
    (SelfContained (Key.parse text).field ↔ (Key.parse text).CastContained)
    ∧ (SelfContained (Key.parse text).bodyField ↔ (Key.parse text).CastContained)
    ∧ (∀ clause, Criteria.compile target offset criteria = .ok clause →
      (∀ p ∈ Criteria.predicates criteria, (Key.parse p.1).CastContained) →
      ∃ os, Criteria.outlines target criteria offset criteria = .ok os
        ∧ (∀ c ∈ Outline.entryLeaves os, (nests (tokens c.conditions)).isSome)
        ∧ nests (tokens clause.conditions) = some (conjunctionForest (Outline.entryForests os)))
    ∧ (o.fields ≠ [] →
      (∀ field ∈ o.fields, field ≠ "*" → (Key.parse field).CastContained) →
      listItems o.projection = o.fields.map (fun field => words (Options.fieldSql field))
        ++ if o.exprTexts.isEmpty then [] else listItems (", ".intercalate o.exprTexts)) := by
  refine ⟨Key.selfContained_field_iff _, Key.selfContained_bodyField_iff _, ?_,
    Options.listItems_projection⟩
  intro clause hclause hkeys
  obtain ⟨os, hos, rfl⟩ := Criteria.compile_eq_ok_iff.mp hclause
  refine ⟨os, hos, ?_, (Criteria.nested_outlines hkeys hos).nests_eq⟩
  intro c hc
  obtain ⟨siblings, offset', key, value, hmem, hc⟩ :=
    (Criteria.chained_of_outlines hos).exists_predicate hc
  rw [(Criteria.nested_predicateClause (hkeys _ hmem) hc).nests_eq]
  rfl

/-- A precision in parentheses stays in its place. -/
theorem key_selfContained_iff_precision :
    SelfContained (Key.parse "a::numeric(10,2)").field
    ∧ SelfContained (Key.parse "a::numeric(10,2)").bodyField
    ∧ (∃ clause, Criteria.compile ⟨.table, []⟩ 0
        [.group .any [[.predicate "a::numeric(10,2)" (.str "x")]]] = .ok clause
      ∧ (nests (tokens clause.conditions)).isSome)
    ∧ (listItems (Options.none.withFields ["a::numeric(10,2)", "*"]).projection).length = 2 := by
  have hkey : Key.parse "a::numeric(10,2)" = ⟨"a", [], some "numeric(10,2)", ""⟩ := by
    decide +kernel
  have hcast : (Key.parse "a::numeric(10,2)").CastContained := by
    rw [hkey]
    decide
  have hpredicate : ∀ siblings, Criteria.predicateClause ⟨.table, []⟩ siblings 0
      "a::numeric(10,2)" (.str "x") = .ok ⟨"\"a\"::numeric(10,2) = $1", [.str "x"]⟩ := by
    intro siblings
    rw [Criteria.predicateClause, hkey]
    rfl
  have hclause : Criteria.compile ⟨.table, []⟩ 0
      [.group .any [[.predicate "a::numeric(10,2)" (.str "x")]]]
      = .ok ⟨"((\"a\"::numeric(10,2) = $1))", [.str "x"]⟩ := by
    rw [Criteria.compile, Criteria.entryClauses, Criteria.entryClause, Criteria.branchClauses,
      Criteria.entryClauses, Criteria.entryClause, hpredicate]
    rfl
  obtain ⟨hfield, hbody, hcriteria, hlist⟩ := key_selfContained_iff "a::numeric(10,2)"
    ⟨.table, []⟩ 0 [.group .any [[.predicate "a::numeric(10,2)" (.str "x")]]]
    (Options.none.withFields ["a::numeric(10,2)", "*"])
  refine ⟨hfield.mpr hcast, hbody.mpr hcast, ⟨_, hclause, ?_⟩, ?_⟩
  · obtain ⟨os, -, -, hnests⟩ := hcriteria _ hclause fun p hp => by
      obtain rfl := List.mem_singleton.mp hp
      exact hcast
    rw [hnests]
    rfl
  · have hitems := hlist (List.cons_ne_nil _ _) fun field hfield hstar => by
      rcases List.mem_cons.mp hfield with rfl | hfield
      · exact hcast
      · exact absurd (List.mem_singleton.mp hfield) hstar
    have hexprs : (Options.none.withFields ["a::numeric(10,2)", "*"]).exprTexts = [] := rfl
    rw [hitems, hexprs, List.length_append, List.length_map]
    rfl

/-- A cast may close a parenthesis that its key has not opened, and a comma in
it makes two items of one field. -/
theorem not_forall_key_selfContained :
    (Key.parse "a::int)").field = "\"a\"::int)"
    ∧ (Key.parse "a::int)").bodyField = "(\"body\"->>'a')::int)"
    ∧ ¬SelfContained (Key.parse "a::int)").field
    ∧ ¬SelfContained (Key.parse "a::int)").bodyField
    ∧ (listItems (Options.none.withFields ["a::int,b"]).projection).length = 2
    ∧ ¬∀ text, SelfContained (Key.parse text).field ∧ SelfContained (Key.parse text).bodyField := by
  have hkey : Key.parse "a::int)" = ⟨"a", [], some "int)", ""⟩ := by decide +kernel
  have hlist : Key.parse "a::int,b" = ⟨"a", [], some "int,b", ""⟩ := by decide +kernel
  have hbreak : ¬SelfContained (Key.parse "a::int)").field := by
    rw [hkey]
    decide
  refine ⟨by rw [hkey]; rfl, by rw [hkey]; rfl, hbreak, ?_, ?_, fun h => hbreak (h _).1⟩
  · rw [hkey]
    decide
  · have hprojection : (Options.none.withFields ["a::int,b"]).projection = "\"a\"::int,b" := by
      show (Key.parse "a::int,b").field = _
      rw [hlist]
      rfl
    rw [hprojection]
    decide

end CriteriaSql
