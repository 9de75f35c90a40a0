/-
CriteriaSql/Proofs/Statement/Alignment.lean

Rows of a table are inserted as they are given.

A plain insert puts the values of all records into one list of parameters, row
by row, and numbers its placeholders on its own when it is written.  Reading the
text back through the parameters gives the records again: in each row, at the
place of each column, the value that the record has under that name, or null.

Main result: `rows_aligned`, which also says when a value is refused.
-/
import CriteriaSql.Proofs.Statement.InsertText
import CriteriaSql.Proofs.Statement.Records

namespace CriteriaSql.Insert

open Sql (words readInsertion)

variable {entity : Entity} {options : Options}

/-- The insert of records into a table. -/
def plain (entity : Entity) (records : List Members) (options : Options) : Insert :=
  { source := entity.fullName, columns := columnsOf records,
    rows := records.map (rowOf (columnsOf records)), deep := none, options }

/-- More than one record, and no member at all. -/
def EmptyBatch (records : List Members) : Prop :=
  1 < records.length ∧ ∀ record ∈ records, record = []

theorem rowsOf_eq_ok_iff {records : List Members} {i : Insert} :
    rowsOf entity records options = .ok i
      ↔ ¬EmptyBatch records ∧ i = plain entity records options := by
  have hbatch : ((columnsOf records).isEmpty = true ∧ 1 < records.length) ↔ EmptyBatch records := by
    rw [List.isEmpty_iff, columnsOf_eq_nil_iff, and_comm]
    rfl
  unfold rowsOf
  dsimp only
  split
  · next h => exact ⟨(fun h => nomatch h), fun hi => absurd (hbatch.mp h) hi.1⟩
  · next h =>
    rw [hbatch] at h
    constructor
    · intro hi
      exact ⟨h, (Except.ok.inj hi).symm⟩
    · rintro ⟨-, rfl⟩
      rfl

/-- Without junctions and documents a value is accepted when it holds records,
at least one of them, that are no empty batch. -/
theorem ofJson_eq_ok_iff (hdeep : options.deepInsert = false)
    (htable : options.isDocument entity = false) {value : Json} {i : Insert} :
    ofJson entity value options = .ok i ↔
      ∃ records, HoldsRecords value records ∧ records ≠ [] ∧ ¬EmptyBatch records
        ∧ i = plain entity records options := by
  unfold ofJson
  rw [bind_eq_ok_iff]
  refine exists_congr fun records => ?_
  rw [mapError_eq_ok_iff, recordsOf_eq_ok_iff, hdeep, htable]
  refine and_congr_right fun _ => ?_
  rcases records with - | ⟨record, records⟩
  · exact ⟨(fun h => nomatch h), fun h => absurd rfl h.1⟩
  · refine Iff.trans (mapError_eq_ok_iff.trans rowsOf_eq_ok_iff) ?_
    exact ⟨fun h => ⟨List.cons_ne_nil _ _, h⟩, fun h => h.2⟩

/-- A value is refused when it holds no records, no record, or an empty batch. -/
theorem exists_ofJson_eq_error_iff (hdeep : options.deepInsert = false)
    (htable : options.isDocument entity = false) {value : Json} :
    (∃ e, ofJson entity value options = .error e) ↔
      (∀ records, ¬HoldsRecords value records) ∨ value = .arr []
      ∨ ∃ records, HoldsRecords value records ∧ EmptyBatch records := by
  have hrefused : (∃ e, ofJson entity value options = .error e)
      ↔ ¬∃ i, ofJson entity value options = .ok i := by
    rcases ofJson entity value options with e | i <;> simp
  have hnone : value = .arr [] ↔ HoldsRecords value [] := by
    constructor
    · rintro rfl
      exact .many []
    · generalize hrecords : [] = records
      rintro (record | records)
      · cases hrecords
      · rw [← hrecords]
        rfl
  rw [hrefused, hnone]
  constructor
  · intro h
    by_cases hholds : ∃ records, HoldsRecords value records
    · obtain ⟨records, hrecords⟩ := hholds
      by_cases hne : records = []
      · exact .inr (.inl (hne ▸ hrecords))
      · refine .inr (.inr ⟨records, hrecords, ?_⟩)
        by_contra hbatch
        exact h ⟨_, (ofJson_eq_ok_iff hdeep htable).mpr ⟨records, hrecords, hne, hbatch, rfl⟩⟩
    · exact .inl fun records hrecords => hholds ⟨records, hrecords⟩
  · rintro h ⟨i, hi⟩
    obtain ⟨records, hrecords, hne, hbatch, -⟩ := (ofJson_eq_ok_iff hdeep htable).mp hi
    rcases h with h | h | ⟨records', h, hbatch'⟩
    · exact h records hrecords
    · exact hne (hrecords.unique h)
    · exact hbatch (hrecords.unique h ▸ hbatch')

/-- What is read back of the rows of a plain insert. -/
theorem values?_plain {records : List Members} (hne : records ≠ []) (hbatch : ¬EmptyBatch records)
    (table : List String) :
    ((plain entity records options).insertion table).rows.values?
        (plain entity records options).params
      = some (records.map fun record => (columnsOf records).map record.getD) := by
  have hrows : (plain entity records options).columns = [] →
      (plain entity records options).rows = [[]] := by
    intro hcolumns
    have hnil : columnsOf records = [] := hcolumns
    -- a single record without members, which is a row of defaults
    obtain ⟨record, rfl⟩ : ∃ record, records = [record] := by
      rcases records with - | ⟨record, - | ⟨other, others⟩⟩
      · exact absurd rfl hne
      · exact ⟨record, rfl⟩
      · refine absurd ⟨?_, columnsOf_eq_nil_iff.mp hnil⟩ hbatch
        simp only [List.length_cons]
        omega
    show [rowOf (columnsOf [record]) record] = [[]]
    rw [hnil]
    rfl
  have hread := values?_insertion hrows table []
  rw [List.append_nil] at hread
  exact hread

/-- Every accepted value holds records.  What is written is one INSERT into the
table, with the names of all members as its columns, each where it is first
seen; and the placeholders of the tuples stand for the values of the records,
record by record and column by column, with null where a record has no member.
A value is refused when it holds no records, when it is an empty list, and when
it holds more than one record and no member at all. -/
theorem rows_aligned (entity : Entity) (options : Options) (hdeep : options.deepInsert = false)
    (htable : options.isDocument entity = false) (value : Json) :
    (∀ i, ofJson entity value options = .ok i →
      ∃ records insertion, HoldsRecords value records ∧ records ≠ []
        ∧ readInsertion (words i.sql) = some (insertion, words i.ending)
        ∧ insertion.table = entity.nameParts
        ∧ insertion.columns = (records.flatMap Members.names).eraseDups
        ∧ insertion.columns.Nodup
        ∧ (∀ record ∈ records, ∀ name ∈ record.names, name ∈ insertion.columns)
        ∧ insertion.rows.values? i.params
          = some (records.map fun record => insertion.columns.map record.getD))
    ∧ ((∃ e, ofJson entity value options = .error e) ↔
      (∀ records, ¬HoldsRecords value records) ∨ value = .arr []
      ∨ ∃ records, HoldsRecords value records ∧ EmptyBatch records) := by
  constructor
  · intro i h
    obtain ⟨records, hrecords, hne, hbatch, rfl⟩ := (ofJson_eq_ok_iff hdeep htable).mp h
    have hrows : (plain entity records options).rows ≠ [] := mt List.map_eq_nil_iff.mp hne
    have hread := readInsertion_sql entity.fullName_eq_sql entity.nameParts_ne_nil hrows rfl
    have hcolumns : (plain entity records options).columns
        = (records.flatMap Members.names).eraseDups := columnsOf_eq records
    refine ⟨records, _, hrecords, hne, hread, rfl, hcolumns, ?_, ?_, values?_plain hne hbatch _⟩
    · show (plain entity records options).columns.Nodup
      rw [hcolumns]
      exact nodup_eraseDups _
    · intro record hrecord name hname
      show name ∈ (plain entity records options).columns
      rw [hcolumns, List.mem_eraseDups]
      exact List.mem_flatMap.mpr ⟨record, hrecord, hname⟩
  · exact exists_ofJson_eq_error_iff hdeep htable

/-- Two records with a member in common, the second of which has another one in
front of it. -/
theorem rows_aligned_heterogeneous :
    ∃ i insertion rest,
      ofJson (.table "public" "users") (.arr [.obj [("name", .str "a")],
        .obj [("email", .str "b@x"), ("name", .str "b")]]) .none = .ok i
      ∧ readInsertion (words i.sql) = some (insertion, rest)
      ∧ insertion.table = ["public", "users"] ∧ insertion.columns = ["name", "email"]
      ∧ insertion.rows.values? i.params
        = some [[.str "a", .null], [.str "b", .str "b@x"]] := by
  obtain ⟨records, insertion, hrecords, -, hread, htable, hcolumns, -, -, hvalues⟩ :=
    (rows_aligned (.table "public" "users") .none rfl rfl (.arr [.obj [("name", .str "a")],
      .obj [("email", .str "b@x"), ("name", .str "b")]])).1 _ rfl
  obtain rfl := hrecords.unique (.many [[("name", .str "a")],
    [("email", .str "b@x"), ("name", .str "b")]])
  have hnames : insertion.columns = ["name", "email"] := hcolumns.trans (by decide)
  rw [hnames] at hvalues
  exact ⟨_, insertion, _, rfl, hread, htable, hnames, hvalues⟩

end CriteriaSql.Insert
