/-
CriteriaSql/Error.lean

What can go wrong: one type of causes for each kind of error, and the wording
of each cause in one place.
-/
import CriteriaSql.Duration
import CriteriaSql.Identifier
import CriteriaSql.Json.Printer

namespace CriteriaSql

/-! ### Criteria and records of the wrong shape -/

/-- A value that cannot be compiled.  Faults of a predicate name its field;
`got` is the value that was found. -/
inductive CriteriaFault where
  | notCriteria (got : Json)
  | notBranch (connective : String) (got : Json)
  | notGroup (connective : String) (got : Json)
  | betweenBounds (field : String) (got : Json)
  | membershipList (field : String)
  | isLiteral (field : String) (got : Json)
  | notLookup (text : String)
  | identifier (fault : Identifier.Fault)
  | notRecord (got : Json)
  | notRecords (got : Json)
  | junctionList (table : String)
  | junctionRow (table : String) (got : Json)
  | notChanges (got : Json)
  | other (message : String)

/-- The complaint in words. -/
def CriteriaFault.message : CriteriaFault → String
  | .notCriteria got => "criteria must be an object or \"*\", got " ++ got.text
  | .notBranch connective got =>
    "'" ++ connective ++ "' branches must be objects, got " ++ got.text
  | .notGroup connective got =>
    "'" ++ connective ++ "' must be an array of criteria objects, got " ++ got.text
  | .betweenBounds field got =>
    "BETWEEN on " ++ field ++ " needs a two-element array, got " ++ got.text
  | .membershipList field => "IN on " ++ field ++ " needs an array"
  | .isLiteral field got =>
    "IS on " ++ field ++ " accepts only null or a boolean, got " ++ got.text
  | .notLookup text => "'" ++ text ++ "' is neither a criteria object nor a primary key"
  | .identifier fault => fault.message
  | .notRecord got => "insert records must be objects, got " ++ got.text
  | .notRecords got => "insert needs an object or an array of objects, got " ++ got.text
  | .junctionList table => "junction '" ++ table ++ "' must be an array of objects"
  | .junctionRow table got =>
    "junction '" ++ table ++ "' must be an array of objects, got " ++ got.text
  | .notChanges got => "update changes must be an object, got " ++ got.text
  | .other message => message

/-! ### Misuse -/

/-- Options or inputs that do not go together.  `source` is the quoted name of
the table. -/
inductive UsageFault where
  | unknownGenerator (name : String)
  | unknownDirection (word : String)
  | unknownNulls (word : String)
  | emptyOrderEntry
  | lookupKey (source : String)
  | keysetWithPaging
  | keysetWithoutOrder
  | keysetPartial
  | noRecords
  | deepBatch
  | emptyBatch
  | deepKey (source : String)
  | deepColumns (source : String)
  | noChanges (source : String)
  | streamBuildOnly
  | streamDecompose
  | other (message : String)

/-- The complaint in words. -/
def UsageFault.message : UsageFault → String
  | .unknownGenerator name => "unknown generator '" ++ name ++ "'"
  | .unknownDirection word => "unknown sort direction '" ++ word ++ "'"
  | .unknownNulls word => "unknown nulls placement '" ++ word ++ "'"
  | .emptyOrderEntry => "order entries need a field or an expr"
  | .lookupKey source =>
    "primary key lookup on " ++ source ++ " needs a single-column primary key"
  | .keysetWithPaging => "keyset pagination cannot be combined with offset or limit"
  | .keysetWithoutOrder => "keyset pagination requires an order"
  | .keysetPartial => "keyset pagination needs a last value for every order entry"
  | .noRecords => "insert needs at least one record"
  | .deepBatch => "deep insert accepts a single record"
  | .emptyBatch => "cannot insert a batch of empty records"
  | .deepKey source => "deep insert into " ++ source ++ " needs a single-column primary key"
  | .deepColumns source =>
    "deep insert into " ++ source
      ++ " needs the entity's column list to tell junctions from columns"
  | .noChanges source => "update of " ++ source ++ " has no applicable changes"
  | .streamBuildOnly => "a build-only statement cannot be streamed"
  | .streamDecompose => "decompose is not available for streamed results"
  | .other message => message

/-! ### Decomposition -/

/-- Rows that cannot be decomposed. -/
inductive DecomposeFault where
  | nullRoot (row : Nat) (pk : List String)
  | other (message : String)

/-- The complaint in words. -/
def DecomposeFault.message : DecomposeFault → String
  | .nullRoot row pk =>
    "row " ++ toString row ++ " has a null root primary key (" ++ ", ".intercalate pk ++ ")"
  | .other message => message

/-- JSON that is no decomposition schema. -/
inductive SchemaFault where
  | mistyped (expected : String)
  | missingPk
  | pkItem (got : Json)
  | pkShape (got : Json)
  | emptyPk
  | columnName (got : Json)
  | columnTarget (column : String) (got : Json)
  | columnsShape (got : Json)
  | child (name : String) (fault : SchemaFault)

/-- The complaint in words. -/
def SchemaFault.message : SchemaFault → String
  | .mistyped expected => "invalid type: expected " ++ expected
  | .missingPk => "missing field `pk`"
  | .pkItem got => "Decompose error: pk columns must be strings, got " ++ got.text
  | .pkShape got => "Decompose error: pk must be a string or list, got " ++ got.text
  | .emptyPk => "Decompose error: pk cannot be empty"
  | .columnName got => "Decompose error: column names must be strings, got " ++ got.text
  | .columnTarget column got =>
    "Decompose error: column '" ++ column ++ "' must map to a string, got " ++ got.text
  | .columnsShape got => "Decompose error: columns must be a list or map, got " ++ got.text
  | .child name fault => "Decompose error: child '" ++ name ++ "': " ++ fault.message

/-! ### Options -/

/-- JSON that is no options object. -/
inductive OptionsFault where
  | mistyped (expected : String)
  | expression (name : String) (got : Json)
  | usage (fault : UsageFault)
  | schema (fault : SchemaFault)

/-- The complaint in words. -/
def OptionsFault.message : OptionsFault → String
  | .mistyped expected => "invalid type: expected " ++ expected
  | .expression name got =>
    "expression '" ++ name ++ "' must be a string, got " ++ got.text
  | .usage fault => "Usage error: " ++ fault.message
  | .schema fault => fault.message

/-! ### Execution -/

/-- Failures of a query that name no constraint. -/
inductive QueryFault where
  | unsendable
  | parameterCount (expected got : Nat)
  | parameter (index : Nat)
  | database

/-- The complaint in words. -/
def QueryFault.message : QueryFault → String
  | .unsendable => "error encoding message to server"
  | .parameterCount expected got =>
    "expected " ++ toString expected ++ " parameters but got " ++ toString got
  | .parameter index => "error serializing parameter " ++ toString index
  | .database => "db error"

/-! ### All kinds -/

/-- An error of any kind. -/
inductive Error where
  | invalidCriteria (fault : CriteriaFault)
  | usage (fault : UsageFault)
  | decompose (fault : DecomposeFault)
  | query (fault : QueryFault)
  | notFound (what : String)
  | uniqueViolation (what : String)
  | foreignKeyViolation (what : String)
  | checkViolation (what : String)
  | decode (column : String) (what : String)
  | serialization (fault : OptionsFault)
  | timeout (after : Duration)

namespace Error

/-- The text of an error: its kind and the complaint. -/
def message : Error → String
  | .invalidCriteria fault => "Invalid criteria: " ++ fault.message
  | .usage fault => "Usage error: " ++ fault.message
  | .decompose fault => "Decompose error: " ++ fault.message
  | .query fault => "Query error: " ++ fault.message
  | .notFound what => "Not found: " ++ what
  | .uniqueViolation what => "Unique constraint violation: " ++ what
  | .foreignKeyViolation what => "Foreign key violation: " ++ what
  | .checkViolation what => "Check constraint violation: " ++ what
  | .decode column what => "Decode error on column '" ++ column ++ "': " ++ what
  | .serialization fault => "Serialization error: " ++ fault.message
  | .timeout after => "Query timeout after " ++ after.text

def isUsage : Error → Bool
  | .usage _ => true
  | _ => false

def isUniqueViolation : Error → Bool
  | .uniqueViolation _ => true
  | _ => false

def isTimeout : Error → Bool
  | .timeout _ => true
  | _ => false

end Error

end CriteriaSql
