/-
CriteriaSql/Proofs/Statement/Insert.lean

The placeholders of inserts.

An insert has a placeholder for each value of its own rows, row by row; the
rows are as long as the list of columns, so that an insert without columns has
no values either.  The chained rows of a deep insert follow, with a placeholder
for each value that is not the key of the parent.  `Insert.Numbered` says what
that relies on, and `numbered_ofJson` that inserts are built so.
-/
import CriteriaSql.Proofs.Statement.Pieces
import CriteriaSql.Statement.Insert

namespace CriteriaSql.Insert

open Sql (NumberedList Stops isBare isGlue isLead)

/-! ### Building -/

/-- What the text of an insert relies on. -/
structure Numbered (i : Insert) : Prop where
  raw : i.options.RawPlain
  source : Sql.Numbered i.source []
  rectangular : ∀ row ∈ i.rows, row.length = i.columns.length
  tables : ∀ deep, i.deep = some deep → ∀ junction ∈ deep.junctions,
    Sql.Numbered junction.table []

theorem numbered_junctionOf {name : String} {value : Json} {junction : Junction}
    (h : junctionOf name value = .ok junction) : Sql.Numbered junction.table [] := by
  unfold junctionOf at h
  split at h
  · obtain ⟨records, -, h⟩ := bind_eq_ok_iff.mp h
    obtain ⟨table, -, h⟩ := bind_eq_ok_iff.mp h
    obtain rfl := Except.ok.inj h
    exact numbered_identifier table
  · cases h

theorem numbered_junctionsOf {members : List (String × Json)} {junctions : List Junction}
    (h : junctionsOf members = .ok junctions) :
    ∀ junction ∈ junctions, Sql.Numbered junction.table [] := by
  induction members generalizing junctions with
  | nil =>
    obtain rfl := Except.ok.inj h
    exact fun junction hj => absurd hj List.not_mem_nil
  | cons member members ih =>
    obtain ⟨junction, hjunction, h⟩ := bind_eq_ok_iff.mp h
    obtain ⟨rest, hrest, h⟩ := bind_eq_ok_iff.mp h
    obtain rfl := Except.ok.inj h
    intro j hj
    rcases List.mem_cons.mp hj with rfl | hj
    · exact numbered_junctionOf hjunction
    · exact ih hrest j hj

theorem numbered_deepOf {entity : Entity} {record : Members} {options : Options} {i : Insert}
    (hraw : options.RawPlain) (h : deepOf entity record options = .ok i) : i.Numbered := by
  unfold deepOf at h
  split at h
  · split at h
    · cases h
    · obtain ⟨junctions, hjunctions, h⟩ := bind_eq_ok_iff.mp h
      obtain rfl := Except.ok.inj h
      refine ⟨hraw, numbered_fullName entity, ?_, ?_⟩
      · intro row hrow
        obtain rfl := List.mem_singleton.mp hrow
        rw [List.length_map, List.length_map]
      · intro deep hdeep
        obtain rfl := Option.some.inj hdeep
        exact numbered_junctionsOf (mapError_eq_ok_iff.mp hjunctions)
  · cases h

theorem numbered_documentsOf {entity : Entity} {records : List Members} {options : Options}
    (hraw : options.RawPlain) : (documentsOf entity records options).Numbered := by
  refine ⟨hraw, numbered_fullName entity, ?_, fun deep hdeep => nomatch hdeep⟩
  intro row hrow
  obtain ⟨record, -, rfl⟩ := List.mem_map.mp hrow
  rfl

theorem numbered_rowsOf {entity : Entity} {records : List Members} {options : Options}
    {i : Insert} (hraw : options.RawPlain) (h : rowsOf entity records options = .ok i) :
    i.Numbered := by
  unfold rowsOf at h
  dsimp only at h
  split at h
  · cases h
  · obtain rfl := Except.ok.inj h
    refine ⟨hraw, numbered_fullName entity, ?_, fun deep hdeep => nomatch hdeep⟩
    intro row hrow
    obtain ⟨record, -, rfl⟩ := List.mem_map.mp hrow
    exact List.length_map _

theorem numbered_ofJson {entity : Entity} {value : Json} {options : Options} {i : Insert}
    (hraw : options.RawPlain) (h : ofJson entity value options = .ok i) : i.Numbered := by
  obtain ⟨records, -, h⟩ := bind_eq_ok_iff.mp h
  dsimp only at h
  -- no record, a deep insert, documents, or rows
  split at h
  · cases h
  · split at h
    · split at h
      · exact numbered_deepOf hraw h
      · cases h
    · split at h
      · obtain rfl := Except.ok.inj h
        exact numbered_documentsOf hraw
      · exact numbered_rowsOf hraw (mapError_eq_ok_iff.mp h)

/-! ### Rows -/

theorem numbered_nameList (names : List String) : Sql.Numbered (nameList names) [] :=
  numbered_quotedNames rfl names

/-- A tuple has a placeholder for each value of its row. -/
theorem numbered_tuple (offset : Nat) (row : List Json) :
    Sql.Numbered (tuple offset row) (List.range' (offset + 1) row.length) := by
  have hcomma : isGlue ", " = true := rfl
  have hall := Sql.numberedList_placeholders (offset + 1) row.length
  simp only [Nat.add_right_comm offset 1] at hall
  exact (hall.intercalate hcomma).parens

/-- The tuples have placeholders for the values of the rows, row by row. -/
theorem numberedList_tuples (offset : Nat) (rows : List (List Json)) :
    NumberedList (tuples offset rows) (List.range' (offset + 1) rows.flatten.length) := by
  induction rows generalizing offset with
  | nil => exact .nil
  | cons row rows ih =>
    -- the next row starts after the values of this one
    have hall := NumberedList.cons (numbered_tuple offset row) (ih (offset + row.length))
    rwa [Nat.add_right_comm, List.range'_append_1, ← List.length_append] at hall

/-- The values of a chained row have placeholders, but for the key of the
parent. -/
theorem numberedList_slotTexts (key : String) (offset : Nat) (row : List (Option Json)) :
    NumberedList (slotTexts key offset row)
      (List.range' (offset + 1) (Junction.rowParams row).length) := by
  induction row generalizing offset with
  | nil => exact .nil
  | cons slot slots ih =>
    -- the key of the parent is taken from the inserted row, and binds nothing
    cases slot with
    | none => exact .cons (Sql.numbered_quoteIdent key) (ih offset)
    | some value => exact .cons (Sql.numbered_placeholder (offset + 1)) (ih (offset + 1))

theorem numbered_chainedRow (key : String) {junction : Junction}
    (htable : Sql.Numbered junction.table []) (j r offset : Nat) (row : List (Option Json)) :
    Sql.Numbered (chainedRow key junction j r offset row)
      (List.range' (offset + 1) (Junction.rowParams row).length) := by
  have hinto : isGlue " AS (INSERT INTO " = true := rfl
  have hopen : isGlue " (" = true := rfl
  have hselect : isGlue ") SELECT " = true := rfl
  have hend : isGlue " FROM inserted)" = true := rfl
  have hcomma : isGlue ", " = true := rfl
  have hname : Sql.Numbered ("q_" ++ toString j ++ "_" ++ toString r) [] := by
    apply Sql.numbered_of_isBare
    exact isBare_append (isBare_append (isBare_append rfl (isBare_toString j)) rfl)
      (isBare_toString r)
  have htarget := (hname.join hinto htable).join hopen (numbered_nameList junction.columns)
  have hvalues := (numberedList_slotTexts key offset row).intercalate hcomma
  exact (htarget.join hselect hvalues).append_glue hend

theorem numberedList_chainedRows (key : String) {junction : Junction}
    (htable : Sql.Numbered junction.table []) (j r offset : Nat)
    (rows : List (List (Option Json))) :
    NumberedList (chainedRows key junction j r offset rows)
      (List.range' (offset + 1) (rows.flatMap Junction.rowParams).length) := by
  induction rows generalizing r offset with
  | nil => exact .nil
  | cons row rows ih =>
    have hall := NumberedList.cons (numbered_chainedRow key htable j r offset row)
      (ih (r + 1) (offset + (Junction.rowParams row).length))
    rwa [Nat.add_right_comm, List.range'_append_1, ← List.length_append] at hall

/-- The chained inserts have placeholders for the values of the junctions,
junction by junction. -/
theorem numberedList_chained (key : String) (j offset : Nat) {junctions : List Junction}
    (htables : ∀ junction ∈ junctions, Sql.Numbered junction.table []) :
    NumberedList (chained key j offset junctions)
      (List.range' (offset + 1) (junctions.flatMap Junction.params).length) := by
  induction junctions generalizing j offset with
  | nil => exact .nil
  | cons junction junctions ih =>
    have hrows := numberedList_chainedRows key (htables junction List.mem_cons_self) j 0 offset
      junction.rows
    have hrest := ih (j + 1) (offset + junction.params.length)
      fun junction hj => htables junction (List.mem_cons_of_mem _ hj)
    have hall := hrows.append hrest
    rwa [Nat.add_right_comm, Junction.params, List.range'_append_1, ← List.length_append] at hall

/-! ### Text -/

namespace Numbered

variable {i : Insert} (h : i.Numbered)
include h

/-- Rows without columns hold no values. -/
theorem ownParams_eq_nil (hcolumns : i.columns = []) : i.ownParams = [] := by
  rw [ownParams, List.flatten_eq_nil_iff]
  intro row hrow
  rw [← List.length_eq_zero_iff, h.rectangular row hrow, hcolumns]
  rfl

theorem valuesSql :
    Sql.Numbered i.valuesSql (List.range' 1 i.ownParams.length) ∧ Stops i.valuesSql := by
  have hopen : isGlue " (" = true := rfl
  have hvalues : isGlue ") VALUES " = true := rfl
  have hcomma : isGlue ", " = true := rfl
  unfold Insert.valuesSql
  split
  · next hcolumns =>
    -- DEFAULT VALUES has no placeholder, and there is nothing to be bound
    rw [h.ownParams_eq_nil (List.isEmpty_iff.mp hcolumns)]
    exact ⟨Sql.numbered_of_isBare rfl, by decide⟩
  · have htuples := (numberedList_tuples 0 i.rows).intercalate hcomma
    refine ⟨((numbered_nameList i.columns).lead rfl).join hvalues htuples, ?_⟩
    rw [String.append_assoc, String.append_assoc]
    exact Sql.stops_glue_append hopen _

/-- The insert itself has the placeholders of its own rows. -/
theorem plainSql : Sql.Numbered i.plainSql (List.range' 1 i.ownParams.length) := by
  have hsource := h.source.lead (show isLead "INSERT INTO " = true from rfl)
  have hinsert := hsource.append h.valuesSql.1 h.valuesSql.2
  unfold Insert.plainSql
  split
  · exact hinsert.append_tail (Sql.numbered_of_isBare rfl) (by decide)
  · exact hinsert.append_tail Sql.numbered_empty Sql.stops_empty

theorem sql : Sql.Numbered i.sql (List.range' 1 i.params.length) := by
  unfold Insert.sql Insert.params
  rcases e : i.deep with - | deep
  · have hreturning := Options.numbered_returning h.raw
    exact h.plainSql.append_tail hreturning.1 hreturning.2
  · have hcomma : isGlue ", " = true := rfl
    have hselect : isGlue " SELECT " = true := rfl
    have hreturning : isGlue " RETURNING *)" = true := rfl
    have hend : Sql.Numbered " FROM inserted" [] := Sql.numbered_of_isBare rfl
    have hown := (h.plainSql.lead (show isLead "inserted AS (" = true from rfl)).append_glue
      hreturning
    -- the junctions are numbered after the values of the parent
    have hchained := numberedList_chained deep.key 0 i.ownParams.length (h.tables deep e)
    have hlist := (NumberedList.cons hown hchained).intercalate hcomma
    have hwith := (hlist.lead (show isLead "WITH " = true from rfl)).join hselect
      (Options.numbered_projection h.raw)
    have hall := hwith.append_tail hend (by decide)
    rwa [List.append_nil, Nat.add_comm i.ownParams.length 1, List.range'_append_1,
      ← List.length_append] at hall

end Numbered

end CriteriaSql.Insert
