/-
CriteriaSql/Proofs/Statement/Pieces.lean

The pieces that statements are made of, and their placeholders.

Names, projections and orders hold no placeholder, as long as the SQL that the
caller has written into the options holds none (`Options.RawPlain`).  A filter
has the placeholders after its offset (`numbered_filter`).
-/
import CriteriaSql.Identifier
import CriteriaSql.Proofs.Criteria.Placeholders
import CriteriaSql.Statement.Select

namespace CriteriaSql

open Sql (Numbered NumberedList Stops isBare isGlue isLead)

/-! ### SQL of the caller -/

/-- SQL text without quotes and placeholders. -/
def Sql.IsRaw (text : String) : Prop :=
  Unquoted text ∧ placeholders text = []

theorem Sql.IsRaw.numbered {text : String} (h : IsRaw text) : Numbered text [] :=
  ⟨whole_of_unquoted h.1, h.2⟩

/-- The SQL in the options holds no quote and no placeholder: the named
expressions, and the expressions and casts of the order. -/
structure Options.RawPlain (o : Options) : Prop where
  exprs : ∀ e ∈ o.exprs, Sql.IsRaw e.2
  order : ∀ entry ∈ o.order.getD [], ∀ text, entry.expr = some text ∨ entry.cast = some text →
    Sql.IsRaw text

/-! ### Names -/

theorem numbered_quotedNames {g : String} (hg : isGlue g = true) (names : List String) :
    Numbered (g.intercalate (names.map Text.quoteIdent)) [] := by
  apply NumberedList.intercalate hg
  apply Sql.numberedList_nil
  intro t ht
  obtain ⟨name, -, rfl⟩ := List.mem_map.mp ht
  exact Sql.numbered_quoteIdent name

theorem numbered_fullName (entity : Entity) : Numbered entity.fullName [] := by
  have hdot : isGlue "." = true := rfl
  unfold Entity.fullName
  split
  · exact Sql.numbered_quoteIdent entity.name
  · exact (Sql.numbered_quoteIdent entity.schema).join hdot (Sql.numbered_quoteIdent entity.name)

theorem numbered_pkList (entity : Entity) : Numbered entity.pkList [] :=
  numbered_quotedNames rfl entity.pk

theorem numbered_identifier (i : Identifier) : Numbered i.sql [] :=
  numbered_quotedNames rfl i.parts

/-! ### Numbers -/

/-- A number that is written out. -/
theorem isBare_toString (n : Nat) : isBare (toString n) = true := by
  have hdigits : (toString n).toList = Nat.toDigits 10 n := by
    show (String.ofList (Nat.toDigits 10 n)).toList = _
    exact String.toList_ofList
  rw [isBare, hdigits, List.all_eq_true]
  intro c hc
  have hdigit : c.isDigit = true := Nat.isDigit_of_mem_toDigits (by decide) (by decide) hc
  have hdollar : c ≠ '$' := by rintro rfl; cases hdigit
  simp [Sql.ofChar?_eq_none_of_isDigit hdigit, hdollar]

theorem isBare_append {a b : String} (ha : isBare a = true) (hb : isBare b = true) :
    isBare (a ++ b) = true := by
  rw [isBare, String.toList_append, List.all_append, Bool.and_eq_true]
  exact ⟨ha, hb⟩

/-! ### Projections -/

namespace Options

theorem numbered_fieldSql (field : String) : Numbered (fieldSql field) [] := by
  unfold fieldSql
  split
  · next h =>
    rw [h]
    exact Sql.numbered_of_isBare rfl
  · exact Key.numbered_field _

theorem numbered_projection {o : Options} (hraw : o.RawPlain) : Numbered o.projection [] := by
  have has : isGlue " AS " = true := rfl
  have hcomma : isGlue ", " = true := rfl
  unfold projection
  dsimp only
  split
  · exact Sql.numbered_of_isBare rfl
  · apply NumberedList.intercalate hcomma
    apply Sql.numberedList_nil
    intro t ht
    rcases List.mem_append.mp ht with ht | ht
    · obtain ⟨field, -, rfl⟩ := List.mem_map.mp ht
      exact numbered_fieldSql field
    · obtain ⟨e, he, rfl⟩ := List.mem_map.mp ht
      exact (hraw.exprs e he).numbered.join has (Sql.numbered_quoteIdent e.1)

theorem numbered_returning {o : Options} (hraw : o.RawPlain) :
    Numbered o.returning [] ∧ Stops o.returning := by
  have hreturning : isGlue " RETURNING " = true := rfl
  exact ⟨(numbered_projection hraw).lead rfl, Sql.stops_glue_append hreturning o.projection⟩

/-- The word ONLY may stand after any text that leads. -/
theorem isLead_append_onlyWord (o : Options) {g : String} (hg : isLead g = true)
    (honly : isLead (g ++ "ONLY ") = true) : isLead (g ++ o.onlyWord) = true := by
  unfold onlyWord
  split
  · exact honly
  · rw [String.append_empty]
    exact hg

end Options

/-! ### Orders -/

namespace OrderEntry

variable {entry : OrderEntry} {entity : Entity} {document : Bool}

theorem numbered_fieldExpression (entity : Entity) (document : Bool) (field : String) :
    Numbered (fieldExpression entity document field) [] := by
  unfold fieldExpression
  dsimp only
  split
  · exact (Key.plainText_bodyPath _).numbered
  · exact Key.numbered_field _

/-- A cast is put around the whole expression. -/
theorem numbered_withCast (hraw : ∀ cast, entry.cast = some cast → Sql.IsRaw cast)
    {base text : String} (hbase : Numbered base [])
    (h : (match entry.cast with
      | some cast => pure ("(" ++ base ++ ")::" ++ cast)
      | none => pure base : Except UsageFault String) = .ok text) : Numbered text [] := by
  have hleft : isLead "(" = true := rfl
  have hright : isGlue ")::" = true := rfl
  split at h
  · next cast hcast =>
    obtain rfl := Except.ok.inj h
    exact (hbase.lead hleft).join hright (hraw cast hcast).numbered
  · obtain rfl := Except.ok.inj h
    exact hbase

theorem numbered_expression
    (hraw : ∀ text, entry.expr = some text ∨ entry.cast = some text → Sql.IsRaw text)
    {text : String} (h : entry.expression entity document = .ok text) : Numbered text [] := by
  have hcast : ∀ cast, entry.cast = some cast → Sql.IsRaw cast := by
    intro cast hcast
    exact hraw cast (Or.inr hcast)
  unfold expression at h
  dsimp only at h
  split at h
  · obtain ⟨base, hbase, h⟩ := bind_eq_ok_iff.mp h
    obtain rfl := Except.ok.inj hbase
    exact numbered_withCast hcast (numbered_fieldExpression entity document _) h
  · next hexpr =>
    obtain ⟨base, hbase, h⟩ := bind_eq_ok_iff.mp h
    obtain rfl := Except.ok.inj hbase
    exact numbered_withCast hcast (hraw _ (Or.inl hexpr)).numbered h
  · cases h

theorem numbered_sql
    (hraw : ∀ text, entry.expr = some text ∨ entry.cast = some text → Sql.IsRaw text)
    {text : String} (h : entry.sql entity document = .ok text) : Numbered text [] := by
  obtain ⟨expression, hexpression, h⟩ := bind_eq_ok_iff.mp h
  obtain rfl := Except.ok.inj h
  -- the direction and the place of nulls are written out or left out
  have hdirection : ∀ d : Option Direction, Numbered ((d.map Direction.sql).getD "") []
      ∧ Stops ((d.map Direction.sql).getD "") := by
    rintro (- | - | -) <;> exact ⟨Sql.numbered_of_isBare rfl, by decide⟩
  have hnulls : ∀ n : Option NullsPlacement, Numbered ((n.map NullsPlacement.sql).getD "") []
      ∧ Stops ((n.map NullsPlacement.sql).getD "") := by
    rintro (- | - | -) <;> exact ⟨Sql.numbered_of_isBare rfl, by decide⟩
  exact ((numbered_expression hraw hexpression).append_tail (hdirection _).1
    (hdirection _).2).append_tail (hnulls _).1 (hnulls _).2

end OrderEntry

/-! ### Filters -/

theorem numbered_lookupClause (column : String) (value : Json) (offset : Nat) :
    Numbered (Filter.lookupClause column value offset).conditions [offset + 1] := by
  have hequal : isGlue " = " = true := rfl
  exact (Sql.numbered_quoteIdent column).join hequal (Sql.numbered_placeholder (offset + 1))

/-- A filter has the placeholders after the offset, one for each parameter. -/
theorem numbered_filter {entity : Entity} {options : Options} {offset : Nat} {value : Json}
    {f : Filter} (h : Filter.ofJson entity options offset value = .ok f) :
    Numbered f.clause.conditions (List.range' (offset + 1) f.clause.params.length) := by
  obtain ⟨found, -, h⟩ := bind_eq_ok_iff.mp h
  rcases found with - | ⟨column, key⟩
  · -- no key was looked up: the value has been compiled as criteria
    obtain ⟨storage, -, h⟩ := bind_eq_ok_iff.mp h
    obtain ⟨criteria, -, h⟩ := bind_eq_ok_iff.mp h
    obtain ⟨clause, hclause, h⟩ := bind_eq_ok_iff.mp h
    obtain rfl := Except.ok.inj h
    exact Criteria.numbered_compile (mapError_eq_ok_iff.mp hclause)
  · obtain rfl := Except.ok.inj h
    exact numbered_lookupClause column key offset

namespace Filter

variable (f : Filter) (o : Options)

/-- A look-up asks for a single row and nothing else. -/
theorem optionsWith_eq : f.optionsWith o = { o with single := f.byKey || o.single } := by
  unfold optionsWith Options.asSingle
  cases f.byKey <;> rfl

@[simp] theorem onlyWord_optionsWith : (f.optionsWith o).onlyWord = o.onlyWord := by
  rw [optionsWith_eq]
  rfl

theorem rawPlain_optionsWith {o : Options} (hraw : o.RawPlain) : (f.optionsWith o).RawPlain := by
  rw [optionsWith_eq]
  exact ⟨hraw.exprs, hraw.order⟩

end Filter

end CriteriaSql
