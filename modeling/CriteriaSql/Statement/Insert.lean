/-
CriteriaSql/Statement/Insert.lean

New rows.  In a table the columns are the members of all records, in the order
in which they are first seen, and a record without one of them has null there;
in a document table each record is one document.

A deep insert takes one record.  Its members that are no known columns are
junctions: lists of rows for other tables, each inserted in the same statement,
where null stands for the key of the new row.
-/
import CriteriaSql.Identifier
import CriteriaSql.Options.Basic
import CriteriaSql.Criteria.Where

namespace CriteriaSql

/-- Rows for another table.  A value that is absent is the key of the new
parent row. -/
structure Junction where
  table : String
  columns : List String
  rows : List (List (Option Json))

/-- The parameters of a row. -/
def Junction.rowParams (row : List (Option Json)) : List Json :=
  row.filterMap id

/-- The parameters of all rows. -/
def Junction.params (junction : Junction) : List Json :=
  junction.rows.flatMap rowParams

/-- The chained part of a deep insert: the key column of the parent and the
junctions. -/
structure Deep where
  key : String
  junctions : List Junction

/-- An insert of rows, all as long as the list of columns. -/
structure Insert where
  source : String
  columns : List String
  rows : List (List Json)
  deep : Option Deep
  options : Options

namespace Insert

/-! ### Records -/

/-- A list of objects. -/
def objects (fault : Json → CriteriaFault) : List Json → Except CriteriaFault (List Members)
  | [] => .ok []
  | .obj members :: items => do
    let rest ← objects fault items
    return members :: rest
  | got :: _ => .error (fault got)

/-- The records of a value: one object, or a list of objects. -/
def recordsOf : Json → Except CriteriaFault (List Members)
  | .obj members => .ok [members]
  | .arr items => objects .notRecord items
  | got => .error (.notRecords got)

/-- Add the names that are new, in order. -/
def addNames (names : List String) : List String → List String
  | [] => names
  | name :: more => addNames (if names.contains name then names else names ++ [name]) more

/-- The names of the members of all records, in the order in which they are
first seen. -/
def columnsOf (records : List Members) : List String :=
  records.foldl (fun names record => addNames names record.names) []

/-- The values of a record in the given columns. -/
def rowOf (columns : List String) (record : Members) : List Json :=
  columns.map record.getD

/-! ### Junctions -/

/-- The value of a junction row in a column: null is the key of the parent, and
a member that is missing is null. -/
def slotOf (record : Members) (column : String) : Option Json :=
  match record.get? column with
  | some .null => none
  | some value => some value
  | none => some .null

/-- The junction of one member of a deep record. -/
def junctionOf (name : String) : Json → Except CriteriaFault Junction
  | .arr items => do
    let records ← objects (.junctionRow name) items
    let table ← (Identifier.parse name).mapError .identifier
    let columns := columnsOf records
    return { table := table.sql, columns,
             rows := records.map fun record => columns.map (slotOf record) }
  | _ => .error (.junctionList name)

/-- The junctions of members. -/
def junctionsOf : List (String × Json) → Except CriteriaFault (List Junction)
  | [] => .ok []
  | (name, value) :: members => do
    let junction ← junctionOf name value
    let junctions ← junctionsOf members
    return junction :: junctions

/-! ### Building -/

/-- A deep insert of one record. -/
def deepOf (entity : Entity) (record : Members) (options : Options) : Except Error Insert :=
  match entity.pk with
  | [key] =>
    if entity.columns.isEmpty then .error (.usage (.deepColumns entity.fullName))
    else do
      let parent := record.filter fun m => entity.hasColumn m.1
      let others := record.filter fun m => !entity.hasColumn m.1
      let junctions ← (junctionsOf others).mapError .invalidCriteria
      return { source := entity.fullName, columns := parent.map Prod.fst,
               rows := [parent.map Prod.snd], deep := some ⟨key, junctions⟩, options }
  | _ => .error (.usage (.deepKey entity.fullName))

/-- An insert of documents. -/
def documentsOf (entity : Entity) (records : List Members) (options : Options) : Insert :=
  { source := entity.fullName, columns := ["body"], rows := records.map fun r => [.obj r],
    deep := none, options }

/-- An insert of rows of a table. -/
def rowsOf (entity : Entity) (records : List Members) (options : Options) :
    Except UsageFault Insert :=
  let columns := columnsOf records
  if columns.isEmpty ∧ 1 < records.length then .error .emptyBatch
  else
    .ok { source := entity.fullName, columns, rows := records.map (rowOf columns),
          deep := none, options }

/-- The insert of the records of a value. -/
def ofJson (entity : Entity) (value : Json) (options : Options) : Except Error Insert := do
  let records ← (recordsOf value).mapError .invalidCriteria
  if records.isEmpty then throw (.usage .noRecords)
  if options.deepInsert then
    match records with
    | [record] => deepOf entity record options
    | _ => throw (.usage .deepBatch)
  else if options.isDocument entity then return documentsOf entity records options
  else (rowsOf entity records options).mapError .usage

/-! ### Text -/

/-- Names, quoted, with commas. -/
def nameList (names : List String) : String :=
  ", ".intercalate (names.map Text.quoteIdent)

/-- The tuple of placeholders of a row, after `offset` parameters. -/
def tuple (offset : Nat) (row : List Json) : String :=
  "(" ++ ", ".intercalate ((List.range row.length).map fun i => placeholder (offset + i + 1))
    ++ ")"

/-- The tuples of rows, after `offset` parameters. -/
def tuples (offset : Nat) : List (List Json) → List String
  | [] => []
  | row :: rows => tuple offset row :: tuples (offset + row.length) rows

/-- What is inserted: the columns and tuples of placeholders, or the defaults
when there are no columns. -/
def valuesSql (i : Insert) : String :=
  if i.columns.isEmpty then " DEFAULT VALUES"
  else " (" ++ nameList i.columns ++ ") VALUES " ++ ", ".intercalate (tuples 0 i.rows)

/-- The insert itself, returning nothing. -/
def plainSql (i : Insert) : String :=
  "INSERT INTO " ++ i.source ++ i.valuesSql
    ++ if i.options.onConflictIgnore then " ON CONFLICT DO NOTHING" else ""

/-- The values of a junction row, after `offset` parameters: placeholders, and
the key of the parent. -/
def slotTexts (key : String) (offset : Nat) : List (Option Json) → List String
  | [] => []
  | none :: slots => Text.quoteIdent key :: slotTexts key offset slots
  | some _ :: slots => placeholder (offset + 1) :: slotTexts key (offset + 1) slots

/-- The chained insert of a junction row, after `offset` parameters; `j` and `r`
are the numbers of the junction and the row. -/
def chainedRow (key : String) (junction : Junction) (j r offset : Nat)
    (row : List (Option Json)) : String :=
  "q_" ++ toString j ++ "_" ++ toString r ++ " AS (INSERT INTO " ++ junction.table ++ " ("
    ++ nameList junction.columns ++ ") SELECT " ++ ", ".intercalate (slotTexts key offset row)
    ++ " FROM inserted)"

/-- The chained inserts of rows of a junction, from row number `r` on. -/
def chainedRows (key : String) (junction : Junction) (j r offset : Nat) :
    List (List (Option Json)) → List String
  | [] => []
  | row :: rows =>
    chainedRow key junction j r offset row
      :: chainedRows key junction j (r + 1) (offset + (Junction.rowParams row).length) rows

/-- The chained inserts of junctions, from junction number `j` on. -/
def chained (key : String) (j offset : Nat) : List Junction → List String
  | [] => []
  | junction :: junctions =>
    chainedRows key junction j 0 offset junction.rows
      ++ chained key (j + 1) (offset + junction.params.length) junctions

/-- The parameters of the rows of the insert itself. -/
def ownParams (i : Insert) : List Json :=
  i.rows.flatten

def params (i : Insert) : List Json :=
  match i.deep with
  | some deep => i.ownParams ++ deep.junctions.flatMap Junction.params
  | none => i.ownParams

def sql (i : Insert) : String :=
  match i.deep with
  | some deep =>
    "WITH " ++ ", ".intercalate
        (("inserted AS (" ++ i.plainSql ++ " RETURNING *)")
          :: chained deep.key 0 i.ownParams.length deep.junctions)
      ++ " SELECT " ++ i.options.projection ++ " FROM inserted"
  | none => i.plainSql ++ i.options.returning

end Insert

end CriteriaSql
