/-
CriteriaSql/Proofs/Statement/InsertText.lean

The text of an insert, read back.

Reading the words of an insert gives its columns and, for its rows, the numbers
of the placeholders, which go on from row to row (`numbersFrom`).  The numbers
stand for the values of the rows, wherever their parameters are in the list of
all parameters.

What an insert writes itself is read in the same way when the insert stands
alone (`readInsertion_sql`) and when it is the first link of a chain
(`worded_plainSql`).
-/
import CriteriaSql.Proofs.Identifier
import CriteriaSql.Proofs.Sql.Insertion
import CriteriaSql.Statement.Insert

namespace CriteriaSql

open Sql (Worded Insertion Rows isGlue Stops words nameToken numberToken parenthesized tailTokens
  readInsertion param? EndsList worded_intercalate forall₂_map worded_of_isBare worded_quoteIdent
  worded_placeholder)

/-! ### Names -/

theorem worded_quotedNames {g : String} {c : Char} (hg : isGlue g = true)
    (hwords : words g = [.mark c]) (names : List String) :
    Worded (g.intercalate (names.map Text.quoteIdent))
      ([.mark c].intercalate (names.map fun name => [nameToken name])) := by
  exact worded_intercalate hwords hg
    (forall₂_map fun name (_ : name ∈ names) => worded_quoteIdent name)

theorem words_comma : words ", " = [.mark ','] := by decide

theorem worded_identifier (i : Identifier) :
    Worded i.sql ([.mark '.'].intercalate (i.parts.map fun p => [nameToken p])) :=
  worded_quotedNames rfl (by decide) i.parts

namespace Insert

theorem worded_nameList (names : List String) :
    Worded (nameList names) ([.mark ','].intercalate (names.map fun name => [nameToken name])) :=
  worded_quotedNames rfl words_comma names

/-! ### Tuples -/

/-- The numbers of the placeholders of rows, after `offset` parameters. -/
def numbersFrom (offset : Nat) : List (List Json) → List (List Nat)
  | [] => []
  | row :: rows => List.range' (offset + 1) row.length :: numbersFrom (offset + row.length) rows

theorem worded_tuple (offset : Nat) (row : List Json) :
    Worded (tuple offset row)
      (parenthesized ((List.range' (offset + 1) row.length).map fun n => [numberToken n])) := by
  have hall := worded_intercalate words_comma rfl (forall₂_map
    fun n (_ : n ∈ List.range' (offset + 1) row.length) => worded_placeholder n)
  rw [List.range'_eq_map_range, List.map_map, List.map_map] at hall
  simp only [Function.comp_def, Nat.add_right_comm offset 1] at hall
  rw [List.range'_eq_map_range, List.map_map]
  simp only [Function.comp_def, Nat.add_right_comm offset 1]
  exact hall.parens

theorem worded_tuples (offset : Nat) (rows : List (List Json)) :
    List.Forall₂ Worded (tuples offset rows) ((numbersFrom offset rows).map fun row =>
      parenthesized (row.map fun n => [numberToken n])) := by
  induction rows generalizing offset with
  | nil => exact .nil
  | cons row rows ih => exact .cons (worded_tuple offset row) (ih (offset + row.length))

theorem numbersFrom_ne_nil {offset : Nat} {rows : List (List Json)} (hne : rows ≠ []) :
    numbersFrom offset rows ≠ [] := by
  rcases rows with - | ⟨row, rows⟩
  · exact absurd rfl hne
  · exact List.cons_ne_nil _ _

/-- The numbers stand for the values of the rows. -/
theorem mapM_numbersFrom (before : List Json) (rows : List (List Json)) (after : List Json) :
    ((numbersFrom before.length rows).mapM fun row =>
      row.mapM (param? (before ++ rows.flatten ++ after))) = some rows := by
  induction rows generalizing before with
  | nil => rfl
  | cons row rows ih =>
    have hparams : before ++ (row :: rows).flatten ++ after
        = before ++ row ++ (rows.flatten ++ after) := by
      rw [List.flatten_cons, List.append_assoc, List.append_assoc, List.append_assoc]
    have hrow := Sql.mapM_param?_range' before row (rows.flatten ++ after)
    have hrows := ih (before ++ row)
    rw [List.length_append, List.append_assoc (before ++ row)] at hrows
    rw [numbersFrom, hparams, List.mapM_cons]
    refine Option.bind_eq_some_iff.mpr ⟨row, hrow, ?_⟩
    exact Option.bind_eq_some_iff.mpr ⟨rows, hrows, rfl⟩

/-! ### The insert itself -/

/-- The insertion that is written, into a table with the given name. -/
def insertion (i : Insert) (table : List String) : Insertion :=
  ⟨table, i.columns, if i.columns.isEmpty then .defaults else .tuples (numbersFrom 0 i.rows)⟩

theorem worded_valuesSql (i : Insert) (table : List String) :
    Worded i.valuesSql (i.insertion table).rowTokens ∧ Stops i.valuesSql := by
  unfold valuesSql insertion
  split
  · have hdefaults : words " DEFAULT VALUES" = words "DEFAULT VALUES" := by decide
    exact ⟨worded_of_isBare rfl hdefaults, by decide⟩
  · have hopen : words " (" = [.mark '('] := by decide
    have hvalues : words ") VALUES " = .mark ')' :: words "VALUES" := by decide
    have hcolumns := (worded_nameList i.columns).lead hopen rfl
    have htuples := worded_intercalate words_comma rfl (worded_tuples 0 i.rows)
    have hall := hcolumns.join hvalues rfl htuples
    refine ⟨by simpa [Insertion.rowTokens, Rows.tokens, parenthesized] using hall, ?_⟩
    rw [String.append_assoc, String.append_assoc]
    exact Sql.stops_glue_append (show isGlue " (" = true from rfl) _

/-- The values of the rows are read back through parameters that begin with
them. -/
theorem values?_insertion {i : Insert} (hrows : i.columns = [] → i.rows = [[]])
    (table : List String) (after : List Json) :
    (i.insertion table).rows.values? (i.ownParams ++ after) = some i.rows := by
  by_cases hcolumns : i.columns.isEmpty = true
  · have hdefaults : (i.insertion table).rows = .defaults := if_pos hcolumns
    rw [hdefaults, hrows (List.isEmpty_iff.mp hcolumns)]
    rfl
  · have htuples : (i.insertion table).rows = .tuples (numbersFrom 0 i.rows) := if_neg hcolumns
    rw [htuples]
    exact mapM_numbersFrom [] i.rows after

/-- What follows the rows of an insert that is not chained. -/
def ending (i : Insert) : String :=
  (if i.options.onConflictIgnore then " ON CONFLICT DO NOTHING" else "") ++ i.options.returning

theorem words_onConflict : words " ON CONFLICT DO NOTHING" = words "ON CONFLICT DO NOTHING" := by
  decide

theorem worded_plainSql {i : Insert} {table : List String}
    (hsource : i.source = Identifier.sql ⟨table⟩) :
    Worded i.plainSql
      ((i.insertion table).tokens ++ tailTokens i.options.onConflictIgnore false) := by
  have hinto : words "INSERT INTO " = words "INSERT INTO" := by decide
  have hinsert := ((worded_identifier ⟨table⟩).lead hinto rfl).append (i.worded_valuesSql table).1
    (i.worded_valuesSql table).2
  unfold plainSql
  rw [hsource]
  split
  · next h =>
    rw [h]
    exact hinsert.append (worded_of_isBare rfl words_onConflict) (by decide)
  · next h =>
    rw [Bool.eq_false_iff.mpr h, String.append_empty]
    exact (List.append_nil (i.insertion table).tokens).symm ▸ hinsert

theorem printable_insertion {i : Insert} {table : List String} (htable : table ≠ [])
    (hrows : i.rows ≠ []) : (i.insertion table).Printable := by
  refine ⟨htable, ?_⟩
  unfold insertion
  dsimp only
  by_cases hcolumns : i.columns.isEmpty = true
  · rw [if_pos hcolumns]
    exact List.isEmpty_iff.mp hcolumns
  · rw [if_neg hcolumns]
    exact numbersFrom_ne_nil hrows

theorem stops_returning (o : Options) : Stops o.returning := by
  have hreturning : isGlue " RETURNING " = true := rfl
  exact Sql.stops_glue_append hreturning o.projection

theorem words_ending (i : Insert) :
    words i.ending
      = tailTokens i.options.onConflictIgnore false ++ words i.options.returning := by
  unfold ending
  split
  · next h =>
    rw [h]
    exact (worded_of_isBare rfl words_onConflict).words_append (stops_returning i.options)
  · next h =>
    rw [Bool.eq_false_iff.mpr h, String.empty_append]
    rfl

/-- An ending begins with the word ON or RETURNING. -/
theorem endsList_ending (i : Insert) : EndsList ',' (words i.ending) := by
  have hreturning : isGlue " RETURNING " = true := rfl
  have hwords : words i.options.returning = words " RETURNING " ++ words i.options.projection :=
    Sql.words_append_of_sealed (Sql.sealed_of_isGlue hreturning) _
  rw [words_ending, hwords]
  cases i.options.onConflictIgnore <;> exact fun h => absurd (Option.some.inj h) (by decide)

/-- An insert without junctions is read back as its insertion, up to its
ending. -/
theorem readInsertion_sql {i : Insert} {table : List String}
    (hsource : i.source = Identifier.sql ⟨table⟩) (htable : table ≠ []) (hrows : i.rows ≠ [])
    (hdeep : i.deep = none) :
    readInsertion (words i.sql) = some (i.insertion table, words i.ending) := by
  have hsql : words i.sql = (i.insertion table).tokens ++ words i.ending := by
    rw [Insert.sql, hdeep]
    show words (i.plainSql ++ i.options.returning) = _
    rw [(worded_plainSql hsource).words_append (stops_returning i.options), words_ending,
      List.append_assoc]
  rw [hsql]
  exact Sql.readInsertion_tokens (printable_insertion htable hrows) i.endsList_ending

end Insert

end CriteriaSql
