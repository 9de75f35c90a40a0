/-
CriteriaSql/Operator.lean

The operators of predicates: the texts that name them, their SQL spelling, and
the rule by which each takes its value.

An operator text is resolved by the registered names that occur in it: the one
with the longest SQL operator wins, then the one with the longest name, then
the one registered first.  A text in which none occurs means equality.
-/
import CriteriaSql.Text.Blank
import CriteriaSql.Text.Lowercase

namespace CriteriaSql

/-- How an operator takes its value when it does not simply bind it.

* `equality`: null and booleans with IS, lists with IN, all else bound;
* `between`: two bounds;
* `is`: null and booleans written out;
* `arrayLiteral`: a list bound as one array literal. -/
inductive ValueRule where
  | equality
  | between
  | is
  | arrayLiteral
deriving DecidableEq, Repr

/-- A SQL operator and the rule for its value. -/
structure Operation where
  operator : String
  rule : Option ValueRule
deriving DecidableEq, Repr

namespace Operation

/-- Equality. -/
def equality : Operation := ⟨"=", some .equality⟩

/-- The registered names, in order. -/
def registered : List (String × Operation) :=
  [("=", equality),
   ("!", ⟨"<>", some .equality⟩),
   (">", ⟨">", none⟩),
   ("<", ⟨"<", none⟩),
   (">=", ⟨">=", none⟩),
   ("<=", ⟨"<=", none⟩),
   ("!=", ⟨"<>", some .equality⟩),
   ("<>", ⟨"<>", some .equality⟩),
   ("between", ⟨"BETWEEN", some .between⟩),
   ("@>", ⟨"@>", some .arrayLiteral⟩),
   ("<@", ⟨"<@", some .arrayLiteral⟩),
   ("&&", ⟨"&&", some .arrayLiteral⟩),
   ("~~", ⟨"LIKE", none⟩),
   ("like", ⟨"LIKE", none⟩),
   ("!~~", ⟨"NOT LIKE", none⟩),
   ("not like", ⟨"NOT LIKE", none⟩),
   ("~~*", ⟨"ILIKE", none⟩),
   ("ilike", ⟨"ILIKE", none⟩),
   ("!~~*", ⟨"NOT ILIKE", none⟩),
   ("not ilike", ⟨"NOT ILIKE", none⟩),
   ("similar to", ⟨"SIMILAR TO", none⟩),
   ("not similar to", ⟨"NOT SIMILAR TO", none⟩),
   ("~", ⟨"~", none⟩),
   ("!~", ⟨"!~", none⟩),
   ("~*", ⟨"~*", none⟩),
   ("!~*", ⟨"!~*", none⟩),
   ("is", ⟨"IS", some .is⟩),
   ("is not", ⟨"IS NOT", some .is⟩),
   ("is distinct from", ⟨"IS DISTINCT FROM", none⟩),
   ("is not distinct from", ⟨"IS NOT DISTINCT FROM", none⟩)]

/-- Whether a name occurs anywhere in a text. -/
def occursIn (name : List Char) : List Char → Bool
  | [] => name.isEmpty
  | c :: cs => name.isPrefixOf (c :: cs) || occursIn name cs

/-- Whether one registered name beats another: by the longer operator, then by
the longer name. -/
def beats (a b : String × Operation) : Bool :=
  b.2.operator.length < a.2.operator.length ||
    (a.2.operator.length == b.2.operator.length && b.1.length < a.1.length)

/-- The better of the best name so far and the next one; the earlier one stays
unless it is beaten. -/
def better (best : Option (String × Operation)) (next : String × Operation) :
    Option (String × Operation) :=
  match best with
  | none => some next
  | some b => if beats next b then some next else some b

/-- The registered names that occur in a text, in order. -/
def candidates (text : List Char) : List (String × Operation) :=
  registered.filter fun r => occursIn r.1.toList text

/-- The operation that an operator text names. -/
def resolve (text : String) : Operation :=
  let cs := Text.trim text.toList
  if cs.isEmpty then equality
  else
    match (candidates (Text.lowercase cs)).foldl better none with
    | some r => r.2
    | none => equality

end Operation

end CriteriaSql
