/-
CriteriaSql/Proofs/Session/Streaming.lean

The same answer, read all at once and read row by row.

Reading at once waits for the end of the rows and decodes them then; reading row
by row decodes each row as it comes and meets the end last.  They see the same
faults in a different order: a row that cannot be decoded stops the one where
the other goes on, and an error behind the rows hides all rows from the one
where the other has already seen them.  `Delivery` sets side by side what the
two make of an answer, by what is wrong with it.

Main result: `run_stream_agree`.
-/
import CriteriaSql.Proofs.Outcome
import CriteriaSql.Session.Run
import Mathlib.Data.List.Forall2

namespace CriteriaSql

namespace ResultSet

/-! ### One row -/

/-- The error of a column that cannot be decoded, with `n` columns before it. -/
def columnError (column : Column) (n : Nat) : Error :=
  .decode column.name ("error deserializing column " ++ toString n)

/-- The first column of a row whose bytes are no value of its type, with `n`
columns before it. -/
def FirstBad (columns : List Column) (row : RawRow) (column : Column) (n : Nat) : Prop :=
  ∃ before bytes after, columns.zip row = before ++ (column, bytes) :: after
    ∧ before.length = n ∧ (∀ cell ∈ before, ∃ value, Wire.decode cell.1.type cell.2 = some value)
    ∧ Wire.decode column.type bytes = none

/-- A row is decoded up to its first bad column; the members before do not
matter. -/
theorem decodeFrom_eq_error_iff {cells : List (Column × Option (List UInt8))} {n : Nat}
    {members : Members} {e : Error} :
    decodeFrom n members cells = .error e ↔
      ∃ before column bytes after, cells = before ++ (column, bytes) :: after
        ∧ (∀ cell ∈ before, ∃ value, Wire.decode cell.1.type cell.2 = some value)
        ∧ Wire.decode column.type bytes = none ∧ e = columnError column (n + before.length) := by
  induction cells generalizing n members with
  | nil =>
    constructor
    · intro h
      cases h
    · rintro ⟨before, column, bytes, after, h, -⟩
      exact absurd h.symm (List.append_ne_nil_of_right_ne_nil _ (List.cons_ne_nil _ _))
  | cons cell cells ih =>
    obtain ⟨column, bytes⟩ := cell
    rcases hvalue : Wire.decode column.type bytes with - | value
    · simp only [decodeFrom, hvalue]
      constructor
      · intro h
        refine ⟨[], column, bytes, cells, rfl, fun _ h => absurd h List.not_mem_nil, hvalue, ?_⟩
        exact (Except.error.inj h).symm
      · rintro ⟨before, column', bytes', after, heq, hbefore, -, rfl⟩
        rcases before with - | ⟨cell, before⟩
        · obtain ⟨hcell, rfl⟩ := List.cons.inj heq
          obtain ⟨rfl, rfl⟩ := Prod.mk.inj hcell
          rfl
        · -- the first cell is bad, and so not one of those before the bad one
          obtain ⟨rfl, rfl⟩ := List.cons.inj heq
          obtain ⟨value, h⟩ := hbefore _ List.mem_cons_self
          rw [hvalue] at h
          cases h
    · simp only [decodeFrom, hvalue]
      rw [ih]
      constructor
      · rintro ⟨before, column', bytes', after, rfl, hbefore, hbad, rfl⟩
        refine ⟨(column, bytes) :: before, column', bytes', after, rfl, ?_, hbad, ?_⟩
        · exact List.forall_mem_cons.mpr ⟨⟨value, hvalue⟩, hbefore⟩
        · rw [List.length_cons, Nat.add_right_comm, Nat.add_assoc]
      · rintro ⟨before, column', bytes', after, heq, hbefore, hbad, rfl⟩
        rcases before with - | ⟨cell, before⟩
        · obtain ⟨hcell, rfl⟩ := List.cons.inj heq
          obtain ⟨rfl, rfl⟩ := Prod.mk.inj hcell
          rw [hvalue] at hbad
          cases hbad
        · obtain ⟨rfl, rfl⟩ := List.cons.inj heq
          refine ⟨before, column', bytes', after, rfl, ?_, hbad, ?_⟩
          · exact (List.forall_mem_cons.mp hbefore).2
          · rw [List.length_cons, Nat.add_right_comm, Nat.add_assoc]

/-- A row that cannot be decoded fails with the error of its first bad column. -/
theorem decodeRow_eq_error_iff {columns : List Column} {row : RawRow} {e : Error} :
    decodeRow columns row = .error e ↔
      ∃ column n, FirstBad columns row column n ∧ e = columnError column n := by
  rw [decodeRow, decodeFrom_eq_error_iff]
  constructor
  · rintro ⟨before, column, bytes, after, hcells, hbefore, hbad, rfl⟩
    rw [Nat.zero_add]
    exact ⟨column, before.length, ⟨before, bytes, after, hcells, rfl, hbefore, hbad⟩, rfl⟩
  · rintro ⟨column, n, ⟨before, bytes, after, hcells, rfl, hbefore, hbad⟩, rfl⟩
    rw [← Nat.zero_add before.length]
    exact ⟨before, column, bytes, after, hcells, hbefore, hbad, by rw [Nat.zero_add]⟩

/-- What a row is when it is read on its own: its object, or the error of its
first bad column. -/
inductive RowItem (columns : List Column) (row : RawRow) : Except Error Json → Prop
  | decoded {object : Row} (h : decodeRow columns row = .ok object) :
      RowItem columns row (.ok (.obj object))
  | undecoded {column : Column} {n : Nat} (h : FirstBad columns row column n) :
      RowItem columns row (.error (columnError column n))

theorem rowItem_iff {columns : List Column} {row : RawRow} {item : Except Error Json} :
    RowItem columns row item ↔ (decodeRow columns row).map Json.obj = item := by
  constructor
  · intro h
    cases h with
    | decoded h =>
      rw [h]
      rfl
    | undecoded h =>
      rw [decodeRow_eq_error_iff.mpr ⟨_, _, h, rfl⟩]
      rfl
  · rintro rfl
    rcases h : decodeRow columns row with e | object
    · obtain ⟨column, n, hbad, rfl⟩ := decodeRow_eq_error_iff.mp h
      exact .undecoded hbad
    · exact .decoded h

/-! ### All rows -/

/-- What an answer comes to: its objects or an error when it is read at once,
and its items when it is read row by row. -/
inductive Delivery (result : ResultSet) :
    Except Error (List Row) → List (Except Error Json) → Prop
  | complete {objects : List Row} {tag : String}
      (hrows : List.Forall₂ (fun row object => decodeRow result.columns row = .ok object)
        result.rows objects)
      (hend : result.ending = .ok tag) :
      Delivery result (.ok objects) (objects.map fun object => .ok (.obj object))
  | undecoded {before after : List RawRow} {row : RawRow} {objects : List Row} {column : Column}
      {n : Nat} {rest : List (Except Error Json)} {tag : String}
      (hrows : result.rows = before ++ row :: after)
      (hbefore : List.Forall₂ (fun row object => decodeRow result.columns row = .ok object)
        before objects)
      (hbad : FirstBad result.columns row column n)
      (hafter : List.Forall₂ (RowItem result.columns) after rest)
      (hend : result.ending = .ok tag) :
      Delivery result (.error (columnError column n))
        (objects.map (fun object => .ok (.obj object)) ++ .error (columnError column n) :: rest)
  | failed {items : List (Except Error Json)} {e : DbError}
      (hitems : List.Forall₂ (RowItem result.columns) result.rows items)
      (hend : result.ending = .error e) :
      Delivery result (.error e.toError) (items ++ [.error e.toError])

/-- The objects of all rows, decoded when the rows have ended. -/
def objects (result : ResultSet) : Except Error (List Row) := do
  let rows ← result.complete
  rows.mapM (decodeRow result.columns)

/-- The items of rows that are all decoded. -/
theorem map_item_of_forall₂ {columns : List Column} {rows : List RawRow} {objects : List Row}
    (h : List.Forall₂ (fun row object => decodeRow columns row = .ok object) rows objects) :
    (rows.map fun row => (decodeRow columns row).map Json.obj)
      = objects.map fun object => .ok (.obj object) := by
  rw [← List.forall₂_eq_eq_eq, List.forall₂_map_left_iff, List.forall₂_map_right_iff]
  refine h.imp fun row object hrow => ?_
  rw [hrow]
  rfl

theorem forall₂_rowItem_iff {columns : List Column} {rows : List RawRow}
    {items : List (Except Error Json)} : List.Forall₂ (RowItem columns) rows items ↔
      items = rows.map fun row => (decodeRow columns row).map Json.obj := by
  have hitem : RowItem columns = fun row item => (decodeRow columns row).map Json.obj = item := by
    funext row item
    exact propext rowItem_iff
  rw [hitem, eq_comm, ← List.forall₂_eq_eq_eq, List.forall₂_map_left_iff]

variable {result : ResultSet} {tag : String} {e : DbError}

theorem objects_of_ok (hend : result.ending = .ok tag) :
    result.objects = result.rows.mapM (decodeRow result.columns) := by
  rw [objects, complete, hend]
  rfl

theorem objects_of_error (hend : result.ending = .error e) : result.objects = .error e.toError := by
  rw [objects, complete, hend]
  rfl

theorem items_of_ok (hend : result.ending = .ok tag) : Session.items result =
    result.rows.map fun row => (decodeRow result.columns row).map Json.obj := by
  rw [Session.items, failure?, hend]
  exact List.append_nil _

theorem items_of_error (hend : result.ending = .error e) : Session.items result =
    (result.rows.map fun row => (decodeRow result.columns row).map Json.obj)
      ++ [.error e.toError] := by
  rw [Session.items, failure?, hend]
  rfl

/-- An answer comes to one thing only: the objects of its rows, and its items. -/
theorem delivery_iff {all : Except Error (List Row)} {each : List (Except Error Json)} :
    Delivery result all each ↔ all = result.objects ∧ each = Session.items result := by
  constructor
  · intro h
    cases h with
    | complete hrows hend =>
      rw [objects_of_ok hend, items_of_ok hend, map_item_of_forall₂ hrows]
      exact ⟨(mapM_eq_ok_iff.mpr hrows).symm, rfl⟩
    | undecoded hrows hbefore hbad hafter hend =>
      have hrow := decodeRow_eq_error_iff.mpr ⟨_, _, hbad, rfl⟩
      rw [objects_of_ok hend, items_of_ok hend, hrows, List.map_append, List.map_cons,
        map_item_of_forall₂ hbefore, hrow, forall₂_rowItem_iff.mp hafter]
      refine ⟨(mapM_eq_error_iff.mpr ?_).symm, rfl⟩
      exact ⟨_, _, _, _, rfl, mapM_eq_ok_iff.mpr hbefore, hrow⟩
    | failed hitems hend =>
      rw [objects_of_error hend, items_of_error hend, forall₂_rowItem_iff.mp hitems]
      exact ⟨rfl, rfl⟩
  · rintro ⟨rfl, rfl⟩
    rcases hend : result.ending with e | tag
    · rw [objects_of_error hend, items_of_error hend]
      exact .failed (forall₂_rowItem_iff.mpr rfl) hend
    · rw [objects_of_ok hend, items_of_ok hend]
      rcases hrows : result.rows.mapM (decodeRow result.columns) with e | objects
      · obtain ⟨before, row, after, objects, hsplit, hbefore, hrow⟩ := mapM_eq_error_iff.mp hrows
        obtain ⟨column, n, hbad, rfl⟩ := decodeRow_eq_error_iff.mp hrow
        rw [mapM_eq_ok_iff] at hbefore
        rw [hsplit, List.map_append, List.map_cons, map_item_of_forall₂ hbefore, hrow]
        exact .undecoded hsplit hbefore hbad (forall₂_rowItem_iff.mpr rfl) hend
      · rw [mapM_eq_ok_iff] at hrows
        rw [map_item_of_forall₂ hrows]
        exact .complete hrows hend

end ResultSet

namespace Session

variable {config : Config} {reply : Reply} {statement : Statement} {result : ResultSet}
variable {objects : List Row} {values : List Json} {e : Error}

/-! ### Values -/

/-- The values of objects: the objects themselves, or what they decompose to. -/
inductive Values (options : Options) (objects : List Row) : List Json → Prop
  | flat (h : options.decompose = none) : Values options objects (objects.map Json.obj)
  | nested {schema : Schema} {values : List Json} (h : options.decompose = some schema)
      (hvalues : schema.decompose objects = .ok values) : Values options objects values

theorem Values.valuesOf_eq {options : Options} (h : Values options objects values) :
    valuesOf options objects = .ok values := by
  cases h with
  | flat h => rw [valuesOf, h]
  | nested h hvalues =>
    rw [valuesOf, h]
    exact mapError_eq_ok_iff.mpr hvalues

/-! ### The two readings -/

theorem outcome_stream (hbuild : statement.options.build = false)
    (hdecompose : statement.options.decompose = none)
    {answer : Except Error ResultSet}
    (hanswer : (Exchange.send reply statement.sql statement.params).answer = some answer) :
    (stream config reply statement).outcome = some (answer.map items) := by
  have hflat : ¬statement.options.decompose.isSome = true := by
    rw [hdecompose]
    exact Bool.false_ne_true
  unfold stream
  rw [if_neg (ne_true_of_eq_false hbuild), if_neg hflat]
  show within config (Option.map _ (Exchange.send reply statement.sql statement.params).answer) = _
  rw [hanswer]
  rfl

theorem outcome_run (hbuild : statement.options.build = false) {answer : Except Error ResultSet}
    (hanswer : (Exchange.send reply statement.sql statement.params).answer = some answer) :
    (run config reply statement).outcome = some (do
      let result ← answer
      let objects ← result.objects
      let values ← valuesOf statement.options objects
      return outputOf statement.options values) := by
  unfold run
  rw [if_neg (ne_true_of_eq_false hbuild)]
  show within config (Option.map _ (Exchange.send reply statement.sql statement.params).answer) = _
  rw [hanswer]
  rcases answer with e | result
  · rfl
  · show some (result.complete >>= decodeOutput statement.options result.columns)
      = some (result.objects >>= _)
    rw [ResultSet.objects, bind_assoc]
    rfl

/-- Reading at once yields the values of the objects. -/
theorem outcome_run_of_values (hbuild : statement.options.build = false)
    (hanswer : (Exchange.send reply statement.sql statement.params).answer = some (.ok result))
    (hobjects : result.objects = .ok objects) (hvalues : Values statement.options objects values) :
    (run config reply statement).outcome = some (.ok (outputOf statement.options values)) := by
  rw [outcome_run hbuild hanswer]
  show some (result.objects >>= _) = _
  rw [hobjects]
  show some (valuesOf statement.options objects >>= _) = _
  rw [hvalues.valuesOf_eq]
  rfl

/-- Reading at once fails with the error of the objects, whatever is made of
them. -/
theorem outcome_run_of_error (hbuild : statement.options.build = false)
    (hanswer : (Exchange.send reply statement.sql statement.params).answer = some (.ok result))
    (hobjects : result.objects = .error e) :
    (run config reply statement).outcome = some (.error e) := by
  rw [outcome_run hbuild hanswer]
  show some (result.objects >>= _) = _
  rw [hobjects]
  rfl

/-- An answer means the same to both readings: reading row by row yields its
items, and reading at once its objects, their first alone with `single`, or its
error. -/
theorem run_stream_agree (hbuild : statement.options.build = false)
    (hanswer : (Exchange.send reply statement.sql statement.params).answer = some (.ok result)) :
    ∃ all each, result.Delivery all each
      ∧ (statement.options.decompose = none →
          (stream config reply statement).outcome = some (.ok each))
      ∧ (statement.options.decompose = none → statement.options.single = false →
          (run config reply statement).outcome
            = some (all.map fun objects => .rows (objects.map Json.obj)))
      ∧ (statement.options.single = true → ∀ objects values, all = .ok objects →
          Values statement.options objects values →
          (run config reply statement).outcome = some (.ok (.one values.head?)))
      ∧ (∀ e, all = .error e → (run config reply statement).outcome = some (.error e)) := by
  refine ⟨result.objects, items result, ResultSet.delivery_iff.mpr ⟨rfl, rfl⟩, ?_, ?_, ?_, ?_⟩
  · intro hdecompose
    exact outcome_stream hbuild hdecompose hanswer
  · intro hdecompose hsingle
    rcases hobjects : result.objects with e | objects
    · exact outcome_run_of_error hbuild hanswer hobjects
    · rw [outcome_run_of_values hbuild hanswer hobjects (.flat hdecompose), outputOf, hsingle]
      rfl
  · intro hsingle objects values hobjects hvalues
    rw [outcome_run_of_values hbuild hanswer hobjects hvalues, outputOf, if_pos hsingle]
  · intro e hobjects
    exact outcome_run_of_error hbuild hanswer hobjects

/-- A removal that returns the removed rows. -/
def removal (options : Options) : Statement := .delete ⟨"t", .always, options⟩

/-- The answer to a removal of rows with one column. -/
def removed (rows : List RawRow) : Reply :=
  .execution (some []) ⟨[⟨"done", .scalar .bool⟩], rows, .ok "DELETE"⟩

/-- The second of two rows is cut off; with `single` and without rows there is
no first row. -/
theorem run_stream_agree_cut :
    (run .standard (removed [[some [1]], [some []]]) (removal .none)).outcome
        = some (.error (.decode "done" "error deserializing column 0"))
      ∧ (stream .standard (removed [[some [1]], [some []]]) (removal .none)).outcome
        = some (.ok [.ok (.obj [("done", .bool true)]),
            .error (.decode "done" "error deserializing column 0")])
      ∧ (run .standard (removed []) (removal Options.none.asSingle)).outcome
        = some (.ok (.one none)) := by
  obtain ⟨all, each, hdelivery, hstream, -, -, herror⟩ := @run_stream_agree .standard
    (removed [[some [1]], [some []]]) (removal .none) _ rfl rfl
  obtain ⟨rfl, rfl⟩ := ResultSet.delivery_iff.mp hdelivery
  refine ⟨herror _ rfl, hstream rfl, ?_⟩
  obtain ⟨all, each, hdelivery, -, -, hsingle, -⟩ := @run_stream_agree .standard
    (removed []) (removal Options.none.asSingle) _ rfl rfl
  obtain ⟨rfl, rfl⟩ := ResultSet.delivery_iff.mp hdelivery
  exact hsingle rfl _ _ rfl (.flat rfl)

end Session

end CriteriaSql
