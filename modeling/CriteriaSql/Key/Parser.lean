/-
CriteriaSql/Key/Parser.lean

Reading the key of a predicate.

The text is read once from left to right up to the first blank outside quotes;
what follows are the words of the operator.  Outside quotes a dot begins a
member step, an opening bracket begins an index step, a closing bracket ends
one, and the first pair of colons begins the cast, in which brackets are
ordinary characters.  Every text is some key.
-/
import CriteriaSql.Key.Basic

namespace CriteriaSql.Key

open Text (isBlank trim words lowercase)

/-- What the characters that are being read belong to. -/
inductive Slot where
  | column
  | member
  | index
  | cast
deriving DecidableEq, Repr

/-- What has been read: the finished parts, the slot and the characters of the
part that is being read, and whether a quote is open. -/
structure Scan where
  columnChars : List Char
  path : List Step
  cast : Option (List Char)
  slot : Slot
  token : List Char
  quoted : Bool
deriving Repr

namespace Scan

/-- Nothing has been read. -/
def start : Scan := ⟨[], [], none, .column, [], false⟩

/-- Add a character to the part that is being read. -/
def push (s : Scan) (c : Char) : Scan :=
  { s with token := s.token ++ [c] }

/-- Finish the part that is being read.  The column grows by it; an empty part
of any other kind is dropped. -/
def flush (s : Scan) : Scan :=
  let s' := { s with token := [] }
  match s.slot with
  | .column => { s' with columnChars := s.columnChars ++ s.token }
  | .member =>
    if s.token.isEmpty then s'
    else { s' with path := s.path ++ [.member (String.ofList s.token)] }
  | .index =>
    if s.token.isEmpty then s'
    else { s' with path := s.path ++ [.index (String.ofList s.token)] }
  | .cast => if s.token.isEmpty then s' else { s' with cast := some s.token }

/-- Finish the part that is being read and go on with one of another kind. -/
def switch (s : Scan) (slot : Slot) : Scan :=
  { s.flush with slot := slot }

end Scan

/-- Read up to the first blank outside quotes; the second part is the text from
that blank on. -/
def scan (s : Scan) : List Char → Scan × List Char
  | [] => (s.flush, [])
  | ':' :: ':' :: rest =>
    if !s.quoted && s.cast.isNone then scan (s.switch .cast) rest
    else scan (s.push ':') (':' :: rest)
  | c :: cs =>
    if s.quoted then
      if c = '"' then scan { s with quoted := false } cs else scan (s.push c) cs
    else if c = '"' then scan { s with quoted := true } cs
    else if c = '.' then scan (s.switch .member) cs
    else if s.slot = .cast && (c = '[' || c = ']') then scan (s.push c) cs
    else if c = '[' then scan (s.switch .index) cs
    else if c = ']' then scan s.flush cs
    else if isBlank c then (s.flush, c :: cs)
    else scan (s.push c) cs
termination_by cs => cs.length
decreasing_by
  all_goals
    simp only [List.length_cons]
    omega

/-- The words of an operator in lower case with single spaces. -/
def operatorTextOf (cs : List Char) : String :=
  String.ofList (lowercase ([' '].intercalate (words cs)))

/-- Read a key. -/
def parse (text : String) : Key :=
  let (s, rest) := scan Scan.start (trim text.toList)
  { column := String.ofList s.columnChars
    path := s.path
    cast := s.cast.map String.ofList
    operatorText := operatorTextOf rest }

end CriteriaSql.Key
