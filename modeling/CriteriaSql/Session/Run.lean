/-
CriteriaSql/Session/Run.lean

Running statements: all rows at once, row by row, the first row alone, or only
the number of rows that changed.

A statement that is never answered ends when its time limit is over; without a
limit it has no outcome.
-/
import CriteriaSql.Nesting.Decompose
import CriteriaSql.Number.Power
import CriteriaSql.Session.Config
import CriteriaSql.Session.Exchange
import CriteriaSql.Statement.Basic
import CriteriaSql.Wire.Decode

namespace CriteriaSql

/-! ### Rows -/

namespace ResultSet

/-- Add the columns of a row to the members before them; `n` is the number of
the next column. -/
def decodeFrom (n : Nat) (members : Members) :
    List (Column × Option (List UInt8)) → Except Error Row
  | [] => .ok members
  | (column, bytes) :: rest =>
    match Wire.decode column.type bytes with
    | none => .error (.decode column.name ("error deserializing column " ++ toString n))
    | some value => decodeFrom (n + 1) (members.insert column.name value) rest

/-- A row as the values of its columns. -/
def decodeRow (columns : List Column) (row : RawRow) : Except Error Row :=
  decodeFrom 0 [] (columns.zip row)

/-- The error behind the rows, if there is one. -/
def failure? (r : ResultSet) : Option Error :=
  match r.ending with
  | .ok _ => none
  | .error e => some e.toError

/-- All rows, unless there is an error behind them. -/
def complete (r : ResultSet) : Except Error (List RawRow) :=
  match r.ending with
  | .ok _ => .ok r.rows
  | .error e => .error e.toError

/-- The number in the last word of a tag: digits with a plus sign or none that
fit 64 bits, and 0 when it is no such number. -/
def countOfTag (tag : String) : Nat :=
  let word := (tag.toList.reverse.takeWhile (· ≠ ' ')).reverse
  let ds := match word with
    | '+' :: ds => ds
    | ds => ds
  if !ds.isEmpty && ds.all isDigit && natOfDigits ds < pow2 64 then natOfDigits ds else 0

end ResultSet

/-! ### Outcomes and log -/

/-- An event that is logged for a statement. -/
structure LogEvent where
  level : LogLevel
  kind : String
  paramCount : Nat
  rows : Option Nat
  sql : String
  slow : Bool

/-- What a statement yields: its text alone, one row or none, or all rows. -/
inductive Output where
  | sql (text : String) (params : List Json)
  | one (row : Option Json)
  | rows (rows : List Json)

/-- The rows of an output. -/
def Output.intoRows : Output → List Json
  | .sql _ _ => []
  | .one row => row.toList
  | .rows all => all

/-- A finished call: what was exchanged and logged, and the outcome, if there
ever is one. -/
structure Call (α : Type) where
  exchange : Exchange
  log : List LogEvent
  outcome : Option (Except Error α)

namespace Session

/-- The answer within the time limit, if there is ever an outcome. -/
def within {α : Type} (config : Config) : Option (Except Error α) → Option (Except Error α)
  | some answer => some answer
  | none => config.timeout.map fun limit => .error (.timeout limit)

/-- The time that a statement takes: none when it is answered, and the time
limit when it is not. -/
def elapsed {α : Type} (config : Config) : Option (Except Error α) → Duration
  | some _ => ⟨0⟩
  | none => config.timeout.getD ⟨0⟩

/-- The event of a statement. -/
def logEvent (config : Config) (statement : Statement) (time : Duration) (rows : Option Nat) :
    LogEvent :=
  { level := if config.isSlow time then .warn else config.logLevel,
    kind := statement.kind, paramCount := statement.params.length, rows,
    sql := config.truncate statement.sql, slow := config.isSlow time }

/-- The number of rows of a successful answer. -/
def rowCount? : Option (Except Error (List RawRow)) → Option Nat
  | some (.ok rows) => some rows.length
  | _ => none

/-! ### All rows -/

/-- Decoded rows as values, nested when the options ask for it. -/
def valuesOf (options : Options) (rows : List Row) : Except Error (List Json) :=
  match options.decompose with
  | none => .ok (rows.map Json.obj)
  | some schema => (schema.decompose rows).mapError .decompose

/-- Values as an output: the first alone, when the options ask for it. -/
def outputOf (options : Options) (values : List Json) : Output :=
  if options.single then .one values.head? else .rows values

/-- The output of the rows of a statement. -/
def decodeOutput (options : Options) (columns : List Column) (rows : List RawRow) :
    Except Error Output := do
  let decoded ← rows.mapM (ResultSet.decodeRow columns)
  let values ← valuesOf options decoded
  return outputOf options values

/-- Run a statement and decode all its rows.  With the option `build` it is not
run at all. -/
def run (config : Config) (reply : Reply) (statement : Statement) : Call Output :=
  let sql := statement.sql
  let options := statement.options
  if options.build then ⟨.skipped, [], some (.ok (.sql sql statement.params))⟩
  else
    let exchange := Exchange.send reply sql statement.params
    let rows := exchange.answer.map fun answer => answer.bind ResultSet.complete
    let output := exchange.answer.map fun answer => do
      let result ← answer
      let rows ← result.complete
      decodeOutput options result.columns rows
    { exchange,
      log := [logEvent config statement (elapsed config exchange.answer) (rowCount? rows)],
      outcome := within config output }

/-! ### Row by row -/

/-- The rows of a result one by one, each decoded or with its own error, and at
last the error behind them. -/
def items (result : ResultSet) : List (Except Error Json) :=
  result.rows.map (fun row => (ResultSet.decodeRow result.columns row).map Json.obj)
    ++ (result.failure?.map Except.error).toList

/-- Run a statement and decode its rows one by one.  Options that need all rows,
or none, are refused. -/
def stream (config : Config) (reply : Reply) (statement : Statement) :
    Call (List (Except Error Json)) :=
  if statement.options.build then ⟨.skipped, [], some (.error (.usage .streamBuildOnly))⟩
  else if statement.options.decompose.isSome then
    ⟨.skipped, [], some (.error (.usage .streamDecompose))⟩
  else
    let exchange := Exchange.send reply statement.sql statement.params
    { exchange,
      log := [logEvent config statement (elapsed config exchange.answer) none],
      outcome := within config (exchange.answer.map fun answer => answer.map items) }

/-! ### Without options -/

/-- The first row of a statement, if there is one. -/
def queryFirst (reply : Reply) (statement : Statement) : Call (Option Json) :=
  let exchange := Exchange.send reply statement.sql statement.params
  { exchange, log := [],
    outcome := exchange.answer.map fun answer => do
      let result ← answer
      match ← result.complete with
      | [] => return none
      | row :: _ =>
        let first ← ResultSet.decodeRow result.columns row
        return some (.obj first) }

/-- The number of rows that a statement changed. -/
def execute (reply : Reply) (statement : Statement) : Call Nat :=
  let exchange := Exchange.send reply statement.sql statement.params
  { exchange, log := [],
    outcome := exchange.answer.map fun answer => do
      let result ← answer
      match result.ending with
      | .ok tag => return ResultSet.countOfTag tag
      | .error e => throw e.toError }

end Session

end CriteriaSql
