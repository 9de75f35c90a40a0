/-
CriteriaSql/Session/Config.lean

How statements are run: the time limit, and what is logged at which level.  The
text of a logged statement is cut at a number of bytes, between characters.

Main statement: there is a text to log for every statement and every limit
(`Config.isSome_truncate?`).
-/
import CriteriaSql.Duration
import CriteriaSql.Text.Lowercase
import CriteriaSql.Text.Utf8

namespace CriteriaSql

/-- The level of a logged event. -/
inductive LogLevel where
  | error
  | warn
  | info
  | debug
  | trace
deriving DecidableEq, Repr

namespace LogLevel

def name : LogLevel → String
  | .error => "ERROR"
  | .warn => "WARN"
  | .info => "INFO"
  | .debug => "DEBUG"
  | .trace => "TRACE"

/-- The level with the given name, in any case of its letters. -/
def ofName? (name : String) : Option LogLevel :=
  match String.ofList (Text.asciiLowercase name.toList) with
  | "error" => some .error
  | "warn" => some .warn
  | "info" => some .info
  | "debug" => some .debug
  | "trace" => some .trace
  | _ => none

end LogLevel

/-- Settings of execution.  An absent limit limits nothing. -/
structure Config where
  timeout : Option Duration
  slowThreshold : Option Duration
  logLevel : LogLevel
  maxSqlLength : Option Nat
deriving DecidableEq, Repr

namespace Config

/-- No time limit, nothing is slow, events at the level `debug` with at most
200 bytes of text. -/
def standard : Config := ⟨none, none, .debug, some 200⟩

def withTimeout (c : Config) (timeout : Duration) : Config := { c with timeout := some timeout }

def withSlowThreshold (c : Config) (threshold : Duration) : Config :=
  { c with slowThreshold := some threshold }

def withLogLevel (c : Config) (logLevel : LogLevel) : Config := { c with logLevel }

def withMaxSqlLength (c : Config) (length : Nat) : Config :=
  { c with maxSqlLength := some length }

def withFullSql (c : Config) : Config := { c with maxSqlLength := none }

/-- The text that is logged: the whole text, or what is before the last boundary
within the limit, and three dots.  There would be none if the text were cut
within a character. -/
def truncate? (c : Config) (sql : String) : Option String :=
  match c.maxSqlLength with
  | none => some sql
  | some limit =>
    if limit < sql.utf8ByteSize then
      (Text.Utf8.before? sql (Text.Utf8.lastBoundary sql limit)).map (· ++ "...")
    else some sql

theorem isSome_truncate? (c : Config) (sql : String) : (c.truncate? sql).isSome := by
  unfold truncate?
  split
  · rfl
  · split
    · rw [Option.isSome_map]
      exact Text.Utf8.isSome_before? (Text.Utf8.isBoundary_lastBoundary sql _)
    · rfl

/-- The text that is logged. -/
def truncate (c : Config) (sql : String) : String :=
  (c.truncate? sql).get (c.isSome_truncate? sql)

/-- Whether a span of time is slow. -/
def isSlow (c : Config) (elapsed : Duration) : Bool :=
  match c.slowThreshold with
  | none => false
  | some threshold => threshold.micros ≤ elapsed.micros

end Config

end CriteriaSql
