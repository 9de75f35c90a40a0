/-
CriteriaSql/Wire/Type.lean

The types of parameters and columns.  Only the types with a binary form of
their own are told apart; every other one has the form of a text.
-/

namespace CriteriaSql.Wire

/-- Types that are no arrays. -/
inductive Scalar where
  | bool
  | int2
  | int4
  | int8
  | oid
  | float4
  | float8
  | numeric
  | json
  | jsonb
  | uuid
  | timestamptz
  | timestamp
  | date
  | time
  | bytea
  | text
deriving DecidableEq, Repr

/-- A type.  An array has a name, the identity number of the type of its
elements, and the number of its first element. -/
inductive PgType where
  | scalar (s : Scalar)
  | array (name : String) (element : PgType) (elementOid : Nat) (lowerBound : Nat)
deriving Repr

namespace PgType

/-- The scalar type with the given name. -/
def scalarNamed (name : String) : Scalar :=
  match name with
  | "bool" => .bool
  | "int2" => .int2
  | "int4" => .int4
  | "int8" => .int8
  | "oid" => .oid
  | "float4" => .float4
  | "float8" => .float8
  | "numeric" => .numeric
  | "json" => .json
  | "jsonb" => .jsonb
  | "uuid" => .uuid
  | "timestamptz" => .timestamptz
  | "timestamp" => .timestamp
  | "date" => .date
  | "time" => .time
  | "bytea" => .bytea
  | _ => .text

/-- The identity numbers of the types that have an array type, but for the
vectors. -/
def oids : List (String × Nat) :=
  [("bool", 16), ("bytea", 17), ("char", 18), ("name", 19), ("int8", 20), ("int2", 21),
   ("int4", 23), ("regproc", 24), ("text", 25), ("oid", 26), ("tid", 27), ("xid", 28),
   ("cid", 29), ("json", 114), ("xml", 142), ("point", 600), ("lseg", 601), ("path", 602),
   ("box", 603), ("polygon", 604), ("line", 628), ("cidr", 650), ("float4", 700),
   ("float8", 701), ("circle", 718), ("macaddr8", 774), ("money", 790), ("macaddr", 829),
   ("inet", 869), ("aclitem", 1033), ("bpchar", 1042), ("varchar", 1043), ("date", 1082),
   ("time", 1083), ("timestamp", 1114), ("timestamptz", 1184), ("interval", 1186),
   ("timetz", 1266), ("bit", 1560), ("varbit", 1562), ("numeric", 1700), ("refcursor", 1790),
   ("regprocedure", 2202), ("regoper", 2203), ("regoperator", 2204), ("regclass", 2205),
   ("regtype", 2206), ("cstring", 2275), ("uuid", 2950), ("txid_snapshot", 2970),
   ("pg_lsn", 3220), ("tsvector", 3614), ("tsquery", 3615), ("gtsvector", 3642),
   ("regconfig", 3734), ("regdictionary", 3769), ("jsonb", 3802), ("int4range", 3904),
   ("numrange", 3906), ("tsrange", 3908), ("tstzrange", 3910), ("daterange", 3912),
   ("int8range", 3926), ("jsonpath", 4072), ("regnamespace", 4089), ("regrole", 4096),
   ("regcollation", 4191), ("int4multirange", 4451), ("nummultirange", 4532),
   ("tsmultirange", 4533), ("tstzmultirange", 4534), ("datemultirange", 4535),
   ("int8multirange", 4536), ("pg_snapshot", 5038), ("xid8", 5069)]

/-- The vector type with the given name, whose elements are numbered from
zero. -/
def vectorNamed? (name : String) : Option PgType :=
  match name with
  | "int2vector" => some (.array name (.scalar .int2) 21 0)
  | "oidvector" => some (.array name (.scalar .oid) 26 0)
  | _ => none

/-- The array type with the given name, which begins with an underscore. -/
def arrayNamed? (name : String) : Option PgType :=
  match name.toList with
  | '_' :: cs =>
    let element := String.ofList cs
    match vectorNamed? element, oids.lookup element with
    | some vector, _ => some (.array name vector (if element = "int2vector" then 22 else 30) 1)
    | none, some oid => some (.array name (.scalar (scalarNamed element)) oid 1)
    | none, none => none
  | _ => none

/-- The type with the given name. -/
def named (name : String) : PgType :=
  ((vectorNamed? name).or (arrayNamed? name)).getD (.scalar (scalarNamed name))

end PgType

end CriteriaSql.Wire
