/-
CriteriaSql/Identifier.lean

Dotted SQL names such as `schema.table`.  A part is bare, a letter or an
underscore followed by letters, digits, underscores and dollar signs, or it is
delimited by double quotes, with a quote inside written twice.

`Identifier.parse` reads a written name and says why it refuses one;
`Identifier.sql` writes it back with every part delimited.
-/
import CriteriaSql.Text.Delimited

namespace CriteriaSql

/-- A name of one or more parts. -/
structure Identifier where
  parts : List String
deriving DecidableEq, Repr

namespace Identifier

/-- Why a text is no name. -/
inductive Fault where
  | empty
  | nulCharacter
  | trailingDot
  | missingDot (got : Char)
  | unclosedQuote
  | emptyQuoted
  | invalidCharacter (c : Char)
  | emptySegment
deriving DecidableEq, Repr

/-- The complaint in words. -/
def Fault.message : Fault → String
  | .empty => "Identifier cannot be empty"
  | .nulCharacter => "Identifier cannot contain NUL character"
  | .trailingDot => "Trailing '.' in identifier"
  | .missingDot c => "Expected '.' between identifier parts, got '" ++ c.toString ++ "'"
  | .unclosedQuote => "Unclosed quoted identifier"
  | .emptyQuoted => "Empty quoted identifier"
  | .invalidCharacter c => "Invalid character in identifier: '" ++ c.toString ++ "'"
  | .emptySegment => "Empty identifier segment"

/-! ### Reading -/

/-- A character of a bare part: a letter or an underscore to begin with, after
that also digits and dollar signs. -/
def allowedBare (started : Bool) (c : Char) : Bool :=
  if started then c = '_' || c = '$' || c.isAlphanum else c = '_' || c.isAlpha

/-- Read the rest of a bare part up to a dot or the end; `started` tells
whether a character of it has been read. -/
def readBare (started : Bool) : List Char → Except Fault (List Char × List Char)
  | [] => .ok ([], [])
  | c :: cs =>
    if c = '.' then .ok ([], c :: cs)
    else if allowedBare started c then
      match readBare true cs with
      | .ok (name, rest) => .ok (c :: name, rest)
      | .error e => .error e
    else .error (.invalidCharacter c)

/-- Read one part and leave what follows it. -/
def readPart : List Char → Except Fault (List Char × List Char)
  | '"' :: cs =>
    match Text.Delimited.readInside '"' cs with
    | none => .error .unclosedQuote
    | some ([], _) => .error .emptyQuoted
    | some (name, rest) => .ok (name, rest)
  | cs =>
    match readBare false cs with
    | .error e => .error e
    | .ok ([], _) => .error .emptySegment
    | .ok (name, rest) => .ok (name, rest)

theorem length_le_of_readBare {started : Bool} {cs : List Char} {r : List Char × List Char}
    (h : readBare started cs = .ok r) : r.2.length ≤ cs.length := by
  induction cs generalizing started r with
  | nil =>
    obtain rfl := Except.ok.inj h
    simp
  | cons c cs ih =>
    unfold readBare at h
    split at h
    · obtain rfl := Except.ok.inj h
      simp
    · split at h
      · split at h
        · next heq =>
          obtain rfl := Except.ok.inj h
          have : _ ≤ cs.length := ih heq
          exact Nat.le_succ_of_le this
        · cases h
      · cases h

theorem length_le_of_readPart {cs : List Char} {r : List Char × List Char}
    (h : readPart cs = .ok r) : r.2.length ≤ cs.length := by
  unfold readPart at h
  split at h
  · split at h
    · cases h
    · cases h
    · next heq =>
      obtain rfl := Except.ok.inj h
      exact Nat.le_succ_of_le (Nat.le_of_lt (Text.Delimited.length_lt_of_readInside heq))
  · split at h
    · cases h
    · cases h
    · next heq =>
      obtain rfl := Except.ok.inj h
      exact length_le_of_readBare heq

/-- Read parts with a dot between each two, up to the end of the text. -/
def readParts (cs : List Char) : Except Fault (List (List Char)) :=
  match _h : readPart cs with
  | .error e => .error e
  | .ok (name, []) => .ok [name]
  | .ok (name, c :: rest) =>
    if c = '.' then
      if rest.isEmpty then .error .trailingDot
      else
        match readParts rest with
        | .ok names => .ok (name :: names)
        | .error e => .error e
    else .error (.missingDot c)
termination_by cs.length
decreasing_by
  have := length_le_of_readPart _h
  simp only [List.length_cons] at this
  omega

/-- Read a written name. -/
def parse (text : String) : Except Fault Identifier :=
  let cs := text.toList
  if cs.isEmpty then .error .empty
  else if cs.contains '\x00' then .error .nulCharacter
  else
    match readParts cs with
    | .ok names => .ok ⟨names.map String.ofList⟩
    | .error e => .error e

/-! ### Writing -/

/-- The name with every part delimited. -/
def sql (i : Identifier) : String :=
  ".".intercalate (i.parts.map Text.quoteIdent)

end Identifier

end CriteriaSql
