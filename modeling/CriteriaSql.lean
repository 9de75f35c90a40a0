import CriteriaSql.ArrayLiteral
import CriteriaSql.Condition
import CriteriaSql.Criteria.Basic
import CriteriaSql.Criteria.Storage
import CriteriaSql.Criteria.Where
import CriteriaSql.Duration
import CriteriaSql.Entity
import CriteriaSql.Error
import CriteriaSql.Identifier
import CriteriaSql.Json.Basic
import CriteriaSql.Json.NumberLiteral
import CriteriaSql.Json.Parser
import CriteriaSql.Json.Printer
import CriteriaSql.Key.Basic
import CriteriaSql.Key.Parser
import CriteriaSql.Nesting.Decompose
import CriteriaSql.Nesting.Schema
import CriteriaSql.Nesting.SortOrder
import CriteriaSql.Number.BinaryFormat
import CriteriaSql.Number.Double
import CriteriaSql.Number.DoubleText
import CriteriaSql.Number.FixedDecimal
import CriteriaSql.Number.Power
import CriteriaSql.Number.Rounding
import CriteriaSql.Number.Shortest
import CriteriaSql.Operator
import CriteriaSql.Options.Basic
import CriteriaSql.Options.Order
import CriteriaSql.Options.Reading
import CriteriaSql.Proofs.ArrayLiteral.Grammar
import CriteriaSql.Proofs.ArrayLiteral.RoundTrip
import CriteriaSql.Proofs.ArrayLiteral.Standard
import CriteriaSql.Proofs.Criteria.Composition
import CriteriaSql.Proofs.Criteria.Documents
import CriteriaSql.Proofs.Criteria.Faults
import CriteriaSql.Proofs.Criteria.Forest
import CriteriaSql.Proofs.Criteria.Listed
import CriteriaSql.Proofs.Criteria.Logic
import CriteriaSql.Proofs.Criteria.Outline
import CriteriaSql.Proofs.Criteria.Placeholders
import CriteriaSql.Proofs.Criteria.Predicate
import CriteriaSql.Proofs.Criteria.Shape
import CriteriaSql.Proofs.Criteria.Stored
import CriteriaSql.Proofs.Identifier
import CriteriaSql.Proofs.Json.Containment
import CriteriaSql.Proofs.Json.Joined
import CriteriaSql.Proofs.Json.LongInteger
import CriteriaSql.Proofs.Json.NumberLiteral
import CriteriaSql.Proofs.Json.ReadBack
import CriteriaSql.Proofs.Key.Operand
import CriteriaSql.Proofs.Key.Parts
import CriteriaSql.Proofs.Key.Place
import CriteriaSql.Proofs.Key.RoundTrip
import CriteriaSql.Proofs.Nesting.Comparison
import CriteriaSql.Proofs.Nesting.Grouping
import CriteriaSql.Proofs.Nesting.LeftJoin
import CriteriaSql.Proofs.Nesting.Repeated
import CriteriaSql.Proofs.Nesting.SchemaJson
import CriteriaSql.Proofs.Nesting.SortOrder
import CriteriaSql.Proofs.Nesting.Sorted
import CriteriaSql.Proofs.Nesting.Unjoin
import CriteriaSql.Proofs.Number.Finite
import CriteriaSql.Proofs.Number.WholeOrder
import CriteriaSql.Proofs.Operator.Negation
import CriteriaSql.Proofs.Operator.Ranking
import CriteriaSql.Proofs.Outcome
import CriteriaSql.Proofs.Session.Streaming
import CriteriaSql.Proofs.Session.Truncation
import CriteriaSql.Proofs.Sql.Delimited
import CriteriaSql.Proofs.Sql.Insertion
import CriteriaSql.Proofs.Sql.Logic
import CriteriaSql.Proofs.Sql.Parentheses
import CriteriaSql.Proofs.Sql.Placeholder
import CriteriaSql.Proofs.Sql.Token
import CriteriaSql.Proofs.Statement.Alignment
import CriteriaSql.Proofs.Statement.Containment
import CriteriaSql.Proofs.Statement.DeepInsert
import CriteriaSql.Proofs.Statement.Insert
import CriteriaSql.Proofs.Statement.Keyset
import CriteriaSql.Proofs.Statement.Lookup
import CriteriaSql.Proofs.Statement.Pieces
import CriteriaSql.Proofs.Statement.Placeholders
import CriteriaSql.Proofs.Statement.Places
import CriteriaSql.Proofs.Statement.Select
import CriteriaSql.Proofs.Statement.WellFormed
import CriteriaSql.Proofs.Text.Occurrence
import CriteriaSql.Proofs.Wire.ArrayBinding
import CriteriaSql.Proofs.Wire.DecodeEncode
import CriteriaSql.Proofs.Wire.Restoring
import CriteriaSql.Proofs.Wire.WholeNumeric
import CriteriaSql.Session.Config
import CriteriaSql.Session.Exchange
import CriteriaSql.Session.Run
import CriteriaSql.Statement.Basic
import CriteriaSql.Statement.Filter
import CriteriaSql.Statement.Insert
import CriteriaSql.Statement.Select
import CriteriaSql.Statement.Update
import CriteriaSql.Text.Blank
import CriteriaSql.Text.CaseTable
import CriteriaSql.Text.Delimited
import CriteriaSql.Text.Digits
import CriteriaSql.Text.Hex
import CriteriaSql.Text.Lowercase
import CriteriaSql.Text.Utf8
import CriteriaSql.Time.Calendar
import CriteriaSql.Time.Reading
import CriteriaSql.Time.Writing
import CriteriaSql.Uuid
import CriteriaSql.Wire.BigEndian
import CriteriaSql.Wire.Decode
import CriteriaSql.Wire.Encode
import CriteriaSql.Wire.Numeric
import CriteriaSql.Wire.Type
