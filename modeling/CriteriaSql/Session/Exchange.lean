/-
CriteriaSql/Session/Exchange.lean

One statement sent to a database, and what comes back.

A text with a NUL in it cannot be sent.  The database first reads the text, and
may refuse it.  It then says how many parameters of which types the text has;
the parameters are bound when there are as many of them and each has a binary
form.  After that come the rows, and at last the tag of the command or an error.
-/
import CriteriaSql.Error
import CriteriaSql.Wire.Encode

namespace CriteriaSql

/-- An error that the database reports. -/
structure DbError where
  code : String
  message : String
  constraint : Option String

/-- The kind of an error by its code: the violations of constraints are told
apart. -/
def DbError.toError (e : DbError) : Error :=
  let what := e.constraint.getD "unknown" ++ ": " ++ e.message
  match e.code with
  | "23505" => .uniqueViolation what
  | "23503" => .foreignKeyViolation what
  | "23514" => .checkViolation what
  | _ => .query .database

/-- The name and type of a column. -/
structure Column where
  name : String
  type : Wire.PgType

/-- The columns of a row in binary form, without those that are null. -/
abbrev RawRow := List (Option (List UInt8))

/-- The rows of a statement, and the tag of the command or an error behind
them. -/
structure ResultSet where
  columns : List Column
  rows : List RawRow
  ending : Except DbError String

/-- What becomes of a statement: it is never taken up, or the database never
answers, refuses its text, or runs it.  Without parameter types, every parameter
is a text. -/
inductive Reply where
  | neglect
  | silence
  | refusal (error : DbError)
  | execution (paramTypes : Option (List Wire.PgType)) (result : ResultSet)

/-- What became of a statement: the text and the parameters that arrived, and
the answer, if any ever comes. -/
structure Exchange where
  sent : Option String
  bound : Option RawRow
  answer : Option (Except Error ResultSet)

namespace Exchange

/-- The binary forms of parameters, or the number of the first that has none;
`n` is the number of the next. -/
def bindFrom (n : Nat) : List (Wire.PgType × Json) → Except QueryFault RawRow
  | [] => .ok []
  | (type, value) :: params =>
    match Wire.encode type value with
    | .error _ => .error (.parameter n)
    | .ok bytes => do
      let rest ← bindFrom (n + 1) params
      return bytes :: rest

/-- The binary forms of parameters of the given types, one for each. -/
def bind (types : List Wire.PgType) (params : List Json) : Except QueryFault RawRow :=
  if types.length ≠ params.length then .error (.parameterCount types.length params.length)
  else bindFrom 0 (types.zip params)

/-- The types of parameters for which none are given. -/
def textTypes (params : List Json) : List Wire.PgType :=
  params.map fun _ => .scalar .text

/-- Whether a text can be sent: NUL is the end of a text on the wire. -/
def isSendable (sql : String) : Bool :=
  !sql.toList.contains '\x00'

/-- What a database makes of a statement that reaches it. -/
def receive (reply : Reply) (sql : String) (params : List Json) : Exchange :=
  match reply with
  | .neglect | .silence => ⟨none, none, none⟩
  | .refusal error => ⟨some sql, none, some (.error error.toError)⟩
  | .execution types result =>
    match bind (types.getD (textTypes params)) params with
    | .error fault => ⟨some sql, none, some (.error (.query fault))⟩
    | .ok bound => ⟨some sql, some bound, some (.ok result)⟩

/-- Send a statement, which `reply` answers. -/
def send (reply : Reply) (sql : String) (params : List Json) : Exchange :=
  match reply with
  | .neglect => ⟨none, none, none⟩
  | reply =>
    if isSendable sql then receive reply sql params
    else ⟨none, none, some (.error (.query .unsendable))⟩

/-- An exchange that never took place. -/
def skipped : Exchange := ⟨none, none, none⟩

end Exchange

end CriteriaSql
