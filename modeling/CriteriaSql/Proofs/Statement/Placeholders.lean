/-
CriteriaSql/Proofs/Statement/Placeholders.lean

The placeholders and the parameters of statements.

Each kind of statement numbers its placeholders in its own way.  For each there
is an invariant of the finished statement (`Select.Numbered`,
`Insert.Numbered`, `Update.Numbered`, `Delete.Numbered`) that its builder
establishes and from which the placeholders of the text follow.

Main result: `placeholders_of_statements`.
-/
import CriteriaSql.Proofs.Statement.Insert
import CriteriaSql.Proofs.Statement.Select
import CriteriaSql.Statement.Basic

namespace CriteriaSql

open Sql (NumberedList Stops isBare isGlue isLead placeholders)

/-! ### Changes and removals -/

namespace Update

/-- What the text of a change relies on. -/
structure Numbered (u : Update) : Prop where
  raw : u.options.RawPlain
  source : Sql.Numbered u.source []
  assignments : NumberedList u.assignments (List.range' 1 u.values.length)
  filter : Sql.Numbered u.filter.conditions
    (List.range' (u.values.length + 1) u.filter.params.length)

theorem numberedList_columnAssignments (offset : Nat) (changes : List (String × Json)) :
    NumberedList (columnAssignments offset changes)
      (List.range' (offset + 1) (changes.map Prod.snd).length) := by
  have hequal : isGlue " = " = true := rfl
  induction changes generalizing offset with
  | nil => exact .nil
  | cons change changes ih =>
    have hone := (Sql.numbered_quoteIdent change.1).join hequal
      (Sql.numbered_placeholder (offset + 1))
    exact .cons hone (ih (offset + 1))

/-- The assignments have a placeholder for each of their values. -/
theorem numberedList_assignmentsOf (entity : Entity) (document : Bool)
    (changes : List (String × Json)) :
    NumberedList (assignmentsOf entity document changes).1
      (List.range' 1 (assignmentsOf entity document changes).2.length) := by
  unfold assignmentsOf
  cases document with
  | false => exact numberedList_columnAssignments 0 _
  | true =>
    cases changes with
    | nil => exact .nil
    | cons change changes =>
      -- all changes of a document are one value, which is merged into the body
      have hequal : isGlue " = " = true := rfl
      have hmerge : isGlue " || " = true := rfl
      have hbody := Sql.numbered_quoteIdent "body"
      have hvalue : Sql.Numbered (placeholder 1 ++ "::jsonb") [1] :=
        (Sql.numbered_placeholder 1).append_tail (Sql.numbered_of_isBare rfl) (by decide)
      have hall := (hbody.join hequal hbody).join hmerge hvalue
      rw [← String.append_assoc] at hall
      exact .cons hall .nil

/-- A change from JSON has the filter of its criteria, after the assignments. -/
theorem ofJson_eq_ok {entity : Entity} {changes criteria : Json} {options : Options} {u : Update}
    (h : ofJson entity changes criteria options = .ok u) :
    ∃ members f, changes = .obj members
      ∧ Filter.ofJson entity options u.values.length criteria = .ok f
      ∧ (u.assignments, u.values) = assignmentsOf entity (options.isDocument entity) members
      ∧ u.source = entity.fullName ∧ u.filter = f.clause ∧ u.options = f.optionsWith options := by
  unfold ofJson at h
  split at h
  · next members =>
    dsimp only at h
    split at h
    · cases h
    · obtain ⟨f, hf, h⟩ := bind_eq_ok_iff.mp h
      obtain rfl := Except.ok.inj h
      exact ⟨members, f, rfl, hf, rfl, rfl, rfl, rfl⟩
  · cases h

theorem numbered_ofJson {entity : Entity} {changes criteria : Json} {options : Options}
    {u : Update} (hraw : options.RawPlain) (h : ofJson entity changes criteria options = .ok u) :
    u.Numbered := by
  obtain ⟨members, f, -, hf, hchanges, hsource, hfilter, hoptions⟩ := ofJson_eq_ok h
  refine ⟨?_, ?_, ?_, ?_⟩
  · rw [hoptions]
    exact f.rawPlain_optionsWith hraw
  · rw [hsource]
    exact numbered_fullName entity
  · have hall := numberedList_assignmentsOf entity (options.isDocument entity) members
    rwa [← hchanges] at hall
  · rw [hfilter]
    exact numbered_filter hf

theorem Numbered.sql {u : Update} (h : u.Numbered) :
    Sql.Numbered u.sql (List.range' 1 u.params.length) := by
  have hlead : isLead ("UPDATE " ++ u.options.onlyWord) = true :=
    u.options.isLead_append_onlyWord rfl rfl
  have hset : isGlue " SET " = true := rfl
  have hcomma : isGlue ", " = true := rfl
  have hwhere : isGlue " WHERE " = true := rfl
  have hreturning := Options.numbered_returning h.raw
  have hchanges := (h.source.lead hlead).join hset (h.assignments.intercalate hcomma)
  have hall := (hchanges.join hwhere h.filter).append_tail hreturning.1 hreturning.2
  rwa [List.nil_append, Nat.add_comm u.values.length 1, List.range'_append_1,
    ← List.length_append] at hall

end Update

namespace Delete

/-- What the text of a removal relies on. -/
structure Numbered (d : Delete) : Prop where
  raw : d.options.RawPlain
  source : Sql.Numbered d.source []
  filter : Sql.Numbered d.filter.conditions (List.range' 1 d.filter.params.length)

/-- A removal from JSON has the filter of its criteria. -/
theorem ofJson_eq_ok {entity : Entity} {criteria : Json} {options : Options} {d : Delete}
    (h : ofJson entity criteria options = .ok d) :
    ∃ f, Filter.ofJson entity options 0 criteria = .ok f
      ∧ d.source = entity.fullName ∧ d.filter = f.clause ∧ d.options = f.optionsWith options := by
  obtain ⟨f, hf, h⟩ := bind_eq_ok_iff.mp h
  obtain rfl := Except.ok.inj h
  exact ⟨f, hf, rfl, rfl, rfl⟩

theorem numbered_ofJson {entity : Entity} {criteria : Json} {options : Options} {d : Delete}
    (hraw : options.RawPlain) (h : ofJson entity criteria options = .ok d) : d.Numbered := by
  obtain ⟨f, hf, hsource, hfilter, hoptions⟩ := ofJson_eq_ok h
  refine ⟨?_, ?_, ?_⟩
  · rw [hoptions]
    exact f.rawPlain_optionsWith hraw
  · rw [hsource]
    exact numbered_fullName entity
  · rw [hfilter]
    exact numbered_filter hf

theorem Numbered.sql {d : Delete} (h : d.Numbered) :
    Sql.Numbered d.sql (List.range' 1 d.params.length) := by
  have hlead : isLead ("DELETE FROM " ++ d.options.onlyWord) = true :=
    d.options.isLead_append_onlyWord rfl rfl
  have hwhere : isGlue " WHERE " = true := rfl
  have hreturning := Options.numbered_returning h.raw
  exact ((h.source.lead hlead).join hwhere h.filter).append_tail hreturning.1 hreturning.2

end Delete

/-! ### All statements -/

theorem Select.placeholders_ofJson {entity : Entity} {criteria : Json} {options : Options}
    {s : Select} (hraw : options.RawPlain) (h : Select.ofJson entity criteria options = .ok s) :
    placeholders s.sql = List.range' 1 s.params.length
      ∧ placeholders s.count.sql = List.range' 1 s.count.params.length
      ∧ s.count.params <+: s.params
      ∧ ∃ f, Filter.ofJson entity options 0 criteria = .ok f
        ∧ s.params = f.clause.params ++ Select.lastValues options
        ∧ s.count = ⟨"SELECT count(*) FROM " ++ options.onlyWord ++ entity.fullName ++ " WHERE "
            ++ f.clause.conditions, f.clause.params⟩ := by
  have hnumbered := Select.numbered_ofJson hraw h
  obtain ⟨f, hf, hs⟩ := Select.ofJson_eq_ok h
  have hparams : s.params = f.clause.params ++ Select.lastValues options := by
    rw [Select.params_withClause hs, Select.lastValues_optionsWith]
  obtain ⟨-, -, hsource, hfilter, hoptions⟩ := Select.withClause_eq_ok hs
  have hcount : s.count = ⟨"SELECT count(*) FROM " ++ options.onlyWord ++ entity.fullName
      ++ " WHERE " ++ f.clause.conditions, f.clause.params⟩ := by
    -- a look-up by key asks for a single row, which the text does not say
    unfold Select.count
    rw [hsource, hfilter, hoptions, Filter.onlyWord_optionsWith]
  refine ⟨hnumbered.sql.placeholders_eq, hnumbered.count.placeholders_eq, ?_, f, hf, hparams,
    hcount⟩
  rw [hcount, hparams]
  exact List.prefix_append f.clause.params (Select.lastValues options)

/-- The placeholders of a statement are the numbers from one on, one for each
parameter, from left to right, when the SQL of the caller holds none.  An update
binds its changes before its criteria, a query the values of the last row after
its filter, and a deep insert the values of the junctions after those of the
parent.  A query that counts has the filter of its query, its placeholders and
its parameters, and nothing of the page. -/
theorem placeholders_of_statements {entity : Entity} {options : Options}
    (hraw : options.RawPlain) :
    (∀ criteria s, Select.ofJson entity criteria options = .ok s →
      placeholders s.sql = List.range' 1 s.params.length
        ∧ placeholders s.count.sql = List.range' 1 s.count.params.length
        ∧ s.count.params <+: s.params
        ∧ ∃ f, Filter.ofJson entity options 0 criteria = .ok f
          ∧ s.params = f.clause.params ++ Select.lastValues options
          ∧ s.count = ⟨"SELECT count(*) FROM " ++ options.onlyWord ++ entity.fullName ++ " WHERE "
              ++ f.clause.conditions, f.clause.params⟩)
    ∧ (∀ value i, Insert.ofJson entity value options = .ok i →
      placeholders i.sql = List.range' 1 i.params.length
        ∧ placeholders i.plainSql = List.range' 1 i.ownParams.length
        ∧ ∀ deep, i.deep = some deep →
          i.params = i.ownParams ++ deep.junctions.flatMap Junction.params)
    ∧ (∀ changes criteria u, Update.ofJson entity changes criteria options = .ok u →
      placeholders u.sql = List.range' 1 u.params.length
        ∧ ∃ members f, changes = .obj members
          ∧ Filter.ofJson entity options u.values.length criteria = .ok f
          ∧ u.params = (Update.assignmentsOf entity (options.isDocument entity) members).2
            ++ f.clause.params)
    ∧ (∀ criteria d, Delete.ofJson entity criteria options = .ok d →
      placeholders d.sql = List.range' 1 d.params.length
        ∧ ∃ f, Filter.ofJson entity options 0 criteria = .ok f ∧ d.params = f.clause.params) := by
  refine ⟨fun criteria s h => Select.placeholders_ofJson hraw h, ?_, ?_, ?_⟩
  · intro value i h
    have hnumbered := Insert.numbered_ofJson hraw h
    refine ⟨hnumbered.sql.placeholders_eq, hnumbered.plainSql.placeholders_eq, ?_⟩
    intro deep hdeep
    rw [Insert.params, hdeep]
  · intro changes criteria u h
    obtain ⟨members, f, hmembers, hf, hchanges, -, hfilter, -⟩ := Update.ofJson_eq_ok h
    refine ⟨(Update.numbered_ofJson hraw h).sql.placeholders_eq, members, f, hmembers, hf, ?_⟩
    rw [← hchanges, ← hfilter]
    rfl
  · intro criteria d h
    obtain ⟨f, hf, -, hfilter, -⟩ := Delete.ofJson_eq_ok h
    refine ⟨(Delete.numbered_ofJson hraw h).sql.placeholders_eq, f, hf, ?_⟩
    rw [← hfilter]
    rfl

/-- A named expression, and a page after a row of an order by an expression. -/
def nextPage : Options :=
  ((Options.none.withExpr "n" "count(1)").withOrder
    ((OrderEntry.byExpr "b").after (.str "y"))).withPageLength 5

theorem rawPlain_nextPage : nextPage.RawPlain := by
  have hcount : Sql.IsRaw "count(1)" := ⟨by decide, by decide⟩
  have hexpr : Sql.IsRaw "b" := ⟨by decide, by decide⟩
  refine ⟨?_, ?_⟩
  · intro e he
    obtain rfl := List.mem_singleton.mp he
    exact hcount
  · intro entry hentry text htext
    obtain rfl := List.mem_singleton.mp hentry
    rcases htext with htext | htext
    · rw [← Option.some.inj htext]
      exact hexpr
    · cases htext

theorem filter_nextPage (offset : Nat) :
    Filter.ofJson (Entity.table "" "t") nextPage offset (.obj [("a", .str "x")])
      = .ok ⟨⟨"\"a\" = " ++ placeholder (offset + 1), [.str "x"]⟩, false⟩ := by
  have hkey : Key.parse "a" = ⟨"a", [], none, ""⟩ := by decide +kernel
  have hpredicate : ∀ pk siblings,
      Criteria.predicateClause ⟨.table, pk⟩ siblings offset "a" (.str "x")
        = .ok ⟨"\"a\" = " ++ placeholder (offset + 1), [.str "x"]⟩ := by
    intro pk siblings
    rw [Criteria.predicateClause, hkey]
    rfl
  have hcompile : ∀ pk, Criteria.compile ⟨.table, pk⟩ offset [.predicate "a" (.str "x")]
      = .ok ⟨"\"a\" = " ++ placeholder (offset + 1), [.str "x"]⟩ := by
    intro pk
    rw [Criteria.compile, Criteria.entryClauses, Criteria.entryClause, hpredicate]
    rfl
  have hcriteria : Criteria.ofJson (.obj [("a", .str "x")]) = .ok [.predicate "a" (.str "x")] :=
    rfl
  apply bind_eq_ok_iff.mpr
  refine ⟨none, rfl, bind_eq_ok_iff.mpr ⟨.table, rfl, bind_eq_ok_iff.mpr
    ⟨[.predicate "a" (.str "x")], mapError_eq_ok_iff.mpr hcriteria, ?_⟩⟩⟩
  exact bind_eq_ok_iff.mpr ⟨_, mapError_eq_ok_iff.mpr (hcompile _), rfl⟩

/-- A query for the next page, and a change of a column. -/
theorem placeholders_of_statements_nextPage :
    (∃ s, Select.ofJson (Entity.table "" "t") (.obj [("a", .str "x")]) nextPage = .ok s
      ∧ s.condition = "(\"a\" = $1) AND (b) > ($2)" ∧ placeholders s.sql = [1, 2]
      ∧ placeholders s.count.sql = [1])
    ∧ ∃ u, Update.ofJson (Entity.table "" "t") (.obj [("c", .null)]) (.obj [("a", .str "x")])
        nextPage = .ok u ∧ placeholders u.sql = [1, 2] := by
  have hs : Select.ofJson (Entity.table "" "t") (.obj [("a", .str "x")]) nextPage
      = .ok ⟨"\"t\"", ⟨"\"a\" = $1", [.str "x"]⟩, some ⟨"(b) > ($2)", [.str "y"]⟩, some "b",
        nextPage⟩ := by
    rw [Select.ofJson, filter_nextPage]
    rfl
  have hu : Update.ofJson (Entity.table "" "t") (.obj [("c", .null)]) (.obj [("a", .str "x")])
      nextPage = .ok ⟨"\"t\"", ["\"c\" = $1"], [.null], ⟨"\"a\" = $2", [.str "x"]⟩,
        nextPage⟩ := by
    show (Filter.ofJson (Entity.table "" "t") nextPage 1 (.obj [("a", .str "x")])) >>= _ = _
    rw [filter_nextPage]
    rfl
  obtain ⟨hselect, -, hupdate, -⟩ :=
    @placeholders_of_statements (Entity.table "" "t") nextPage rawPlain_nextPage
  obtain ⟨hsql, hcount, -⟩ := hselect _ _ hs
  exact ⟨⟨_, hs, rfl, hsql, hcount⟩, _, hu, (hupdate _ _ _ hu).1⟩

end CriteriaSql
