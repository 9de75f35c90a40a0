/-
CriteriaSql/Proofs/Key/Place.lean

The places that the expressions of keys point to.

An expression is read the way the server reads it (`Sql.readField`): a delimited
identifier is the column, and behind it stand an arrow with one step, which is a
string literal or a number, or a hash arrow with a string literal that holds an
array literal of steps.  Three layers of quoting lie on top of each other there,
and each is taken off by its own reader: `Text.Delimited.read` the double and the
single quotes, `ArrayLiteral.parse?` the quotes of the elements.

Main result: the expressions of a key, over its own column and over the body,
are read back as the column and the steps that they were made of, whatever
characters these hold; so keys with the same expression have the same column and
the same steps (`places_of_expressions`).

The place that a longer text begins with, in parentheses or not, is read the
same way (`Sql.LeadsWith`): a cast behind an expression does not change it.
-/
import CriteriaSql.Proofs.ArrayLiteral.RoundTrip
import CriteriaSql.Proofs.Key.Operand

namespace CriteriaSql

/-! ### Reading an expression -/

namespace Sql

open Text (Delimited.read)

/-- How an expression goes from a column into the JSON that it holds: not at
all, by a name (`->>` and a literal), by a position (`->>` and a number) or by a
path (`#>>` and an array literal). -/
inductive Access where
  | whole
  | name (text : String)
  | position (text : String)
  | path (texts : List String)
deriving DecidableEq, Repr

/-- The steps of an access, in order. -/
def Access.steps : Access → List String
  | .whole => []
  | .name text => [text]
  | .position text => [text]
  | .path texts => texts

/-- A place in a row: a column, and how it is gone into. -/
structure Place where
  column : String
  access : Access
deriving DecidableEq, Repr

/-- Read a token between two of the given quotes. -/
def readQuoted (quote : Char) (cs : List Char) : Option (String × List Char) :=
  (Delimited.read quote cs).map fun r => (String.ofList r.1, r.2)

/-- Read digits up to the first character that is none. -/
def readDigits (cs : List Char) : Option (List Char × List Char) :=
  if (cs.takeWhile Char.isDigit).isEmpty then none
  else some (cs.takeWhile Char.isDigit, cs.dropWhile Char.isDigit)

/-- Read digits, with a minus sign or none in front. -/
def readPosition : List Char → Option (List Char × List Char)
  | '-' :: cs => (readDigits cs).map fun r => ('-' :: r.1, r.2)
  | cs => readDigits cs

/-- Read one step: a string literal, or a number. -/
def readStep (cs : List Char) : Option (Access × List Char) :=
  if cs.head? = some '\'' then (readQuoted '\'' cs).map fun r => (.name r.1, r.2)
  else (readPosition cs).map fun r => (.position (String.ofList r.1), r.2)

/-- The text of a step in an array of steps; null is none. -/
def stepText? : Json → Option String
  | .str text => some text
  | _ => none

/-- Read a string literal that holds an array of steps. -/
def readSteps (cs : List Char) : Option (Access × List Char) := do
  let (literal, rest) ← readQuoted '\'' cs
  let items ← ArrayLiteral.parse? literal
  let texts ← items.mapM stepText?
  return (.path texts, rest)

/-- Read what follows a column: an arrow with its operand, if there is one. -/
def readAccess : List Char → Option (Access × List Char)
  | '-' :: '>' :: '>' :: cs => readStep cs
  | '#' :: '>' :: '>' :: cs => readSteps cs
  | cs => some (.whole, cs)

/-- Read a place from the front of a text. -/
def readField (cs : List Char) : Option (Place × List Char) := do
  let (column, cs) ← readQuoted '"' cs
  let (access, cs) ← readAccess cs
  return (⟨column, access⟩, cs)

/-- The place that a whole text points to. -/
def place? (text : String) : Option Place :=
  match readField text.toList with
  | some (place, []) => some place
  | _ => none

/-- What can stand behind an expression: nothing, a blank, a closing
parenthesis, or the colons of a cast. -/
def EndsField (rest : List Char) : Prop :=
  ∀ c ∈ rest.head?, c = ' ' ∨ c = ')' ∨ c = ':'

theorem endsField_nil : EndsField [] := by
  intro c hc
  cases hc

theorem EndsField.head?_ne {rest : List Char} (h : EndsField rest) {c : Char}
    (hc : c ≠ ' ' ∧ c ≠ ')' ∧ c ≠ ':') : rest.head? ≠ some c := by
  intro hhead
  rcases h c hhead with rfl | rfl | rfl
  · exact hc.1 rfl
  · exact hc.2.1 rfl
  · exact hc.2.2 rfl

theorem EndsField.isDigit_eq_false {rest : List Char} (h : EndsField rest) :
    ∀ c ∈ rest.head?, c.isDigit = false := by
  intro c hc
  rcases h c hc with rfl | rfl | rfl <;> rfl

/-- A text in quotes is read back in front of anything but another quote. -/
theorem readQuoted_write_append (quote : Char) (text : String) {rest : List Char}
    (h : rest.head? ≠ some quote) :
    readQuoted quote (Text.Delimited.write quote text.toList ++ rest) = some (text, rest) := by
  rw [readQuoted, Text.Delimited.read_write_append quote text.toList h, Option.map_some,
    String.ofList_toList]

theorem readStep_literal (text : String) {rest : List Char} (h : EndsField rest) :
    readStep ((Text.quoteLiteral text).toList ++ rest) = some (.name text, rest) := by
  have hread := readQuoted_write_append '\'' text (h.head?_ne (by decide))
  rw [Text.quoteLiteral, String.toList_ofList]
  unfold readStep
  rw [hread]
  rfl

theorem readDigits_append {ds rest : List Char} (hne : ds ≠ []) (hds : ∀ c ∈ ds, c.isDigit)
    (hrest : ∀ c ∈ rest.head?, c.isDigit = false) : readDigits (ds ++ rest) = some (ds, rest) := by
  rw [readDigits, takeWhile_append_of_ends hds hrest, dropWhile_append_of_ends hds hrest,
    if_neg (by simpa using hne)]

theorem readAccess_of_endsField {rest : List Char} (h : EndsField rest) :
    readAccess rest = some (.whole, rest) := by
  unfold readAccess
  split
  · exact absurd rfl (h.head?_ne (c := '-') (by decide))
  · exact absurd rfl (h.head?_ne (c := '#') (by decide))
  · rfl

end Sql

/-! ### The expressions of keys -/

namespace Key

open Sql (Access Place EndsField readField readAccess readStep readSteps readPosition readQuoted
  stepText? place?)

/-- How a path goes into a column. -/
def accessOf : List Step → Access
  | [] => .whole
  | [.member name] => .name name
  | [.index position] => if isPosition position then .position position else .name position
  | path => .path (path.map Step.text)

theorem followPath_cons_cons (base : String) (s t : Step) (path : List Step) :
    followPath base (s :: t :: path)
      = base ++ "#>>" ++ Text.quoteLiteral (pathLiteral (s :: t :: path)) := by
  cases s <;> rfl

theorem accessOf_cons_cons (s t : Step) (path : List Step) :
    accessOf (s :: t :: path) = .path ((s :: t :: path).map Step.text) := by
  cases s <;> rfl

theorem steps_accessOf (path : List Step) : (accessOf path).steps = path.map Step.text := by
  unfold accessOf
  split
  · rfl
  · rfl
  · split <;> rfl
  · rfl

/-- The place of a field that is a column of its own. -/
def columnPlace (k : Key) : Place :=
  ⟨k.column, accessOf k.path⟩

/-- The place of a field that lies in the body. -/
def bodyPlace (k : Key) : Place :=
  ⟨"body", accessOf (.member k.column :: k.path)⟩

/-- The key without its cast. -/
def uncast (k : Key) : Key :=
  { k with cast := none }

theorem field_uncast (k : Key) : k.uncast.field = followPath (Text.quoteIdent k.column) k.path :=
  rfl

theorem isPosition_minus (ds : List Char) :
    isPosition (String.ofList ('-' :: ds)) = (!ds.isEmpty && ds.all Char.isDigit) := by
  rw [isPosition, String.toList_ofList]
  rfl

theorem isPosition_of_ne {c : Char} (hc : c ≠ '-') (ds : List Char) :
    isPosition (String.ofList (c :: ds)) = (c :: ds).all Char.isDigit := by
  rw [isPosition, String.toList_ofList]
  split
  · next h => exact absurd (List.cons.inj h).1 hc
  · rfl

/-- A position is read up to the first character that is no digit. -/
theorem readPosition_append {position : List Char} (h : isPosition (String.ofList position) = true)
    {rest : List Char} (hrest : ∀ c ∈ rest.head?, c.isDigit = false) :
    readPosition (position ++ rest) = some (position, rest) := by
  rcases position with - | ⟨c, ds⟩
  · cases h
  · by_cases hsign : c = '-'
    · subst hsign
      rw [isPosition_minus, Bool.and_eq_true, Bool.not_eq_true', List.isEmpty_eq_false_iff,
        List.all_eq_true] at h
      rw [List.cons_append, readPosition, Sql.readDigits_append h.1 h.2 hrest]
      rfl
    · rw [isPosition_of_ne hsign, List.all_eq_true] at h
      rw [List.cons_append, readPosition, ← List.cons_append,
        Sql.readDigits_append (List.cons_ne_nil c ds) h hrest]
      intro cs e
      exact hsign (List.cons.inj e).1

theorem readStep_position {position : String} (h : isPosition position = true)
    {rest : List Char} (hrest : EndsField rest) :
    readStep (position.toList ++ rest) = some (.position position, rest) := by
  have hread := @readPosition_append position.toList
    (by rwa [String.ofList_toList]) rest hrest.isDigit_eq_false
  have hquote : (position.toList ++ rest).head? ≠ some '\'' := by
    rcases hchars : position.toList with - | ⟨c, ds⟩
    · rw [isPosition, hchars] at h
      cases h
    · rintro hc
      obtain rfl := Option.some.inj hc
      rcases mem_of_isPosition h (hchars ▸ List.mem_cons_self) with hc | hc <;> cases hc
  rw [readStep, if_neg hquote, hread, Option.map_some, String.ofList_toList]

/-! ### Paths -/

/-- The items of a list of texts, with commas, up to the brace behind them. -/
theorem itemsChars_map_str (texts : List String) :
    ArrayLiteral.itemsChars (texts.map .str)
      = [','].intercalate (texts.map fun t => ArrayLiteral.element t.toList) ++ ['\x7d'] := by
  induction texts with
  | nil => rfl
  | cons t texts ih =>
    rw [List.map_cons, ArrayLiteral.itemsChars_cons, ih]
    rcases texts with - | ⟨u, texts⟩
    · simp [ArrayLiteral.itemChars]
    · simp [ArrayLiteral.itemChars]

/-- The literal of a path is that of the list of its steps. -/
theorem pathLiteral_eq_write (path : List Step) :
    pathLiteral path = ArrayLiteral.write ((path.map Step.text).map .str) := by
  apply String.toList_inj.mp
  rw [ArrayLiteral.write, String.toList_ofList, itemsChars_map_str, pathLiteral]
  simp [String.toList_intercalate, Function.comp_def]

theorem mapM_stepText?_str (texts : List String) :
    (texts.map Json.str).mapM stepText? = some texts := by
  induction texts with
  | nil => rfl
  | cons t texts ih => simp [stepText?, ih]

/-- The literal of a path is read as its steps. -/
theorem readSteps_pathLiteral (path : List Step) {rest : List Char} (h : EndsField rest) :
    readSteps ((Text.quoteLiteral (pathLiteral path)).toList ++ rest)
      = some (.path (path.map Step.text), rest) := by
  have hread := Sql.readQuoted_write_append '\'' (pathLiteral path) (h.head?_ne (by decide))
  have hitems : ArrayLiteral.parse? (pathLiteral path) = some ((path.map Step.text).map .str) := by
    rw [pathLiteral_eq_write, ArrayLiteral.parse?_write, ArrayLiteral.asTexts_eq_map, List.map_map]
    rfl
  rw [Text.quoteLiteral, String.toList_ofList]
  simp only [readSteps, hread, Option.bind_eq_bind, Option.bind_some, hitems, mapM_stepText?_str]
  rfl

/-- Where a column ends, its name is read, and what follows goes into it. -/
theorem readField_of_access {column : String} {path rest : List Char} {access : Access}
    (hpath : path.head? ≠ some '"') (h : readAccess path = some (access, rest)) :
    readField ((Text.quoteIdent column).toList ++ path) = some (⟨column, access⟩, rest) := by
  have hread := Sql.readQuoted_write_append '"' column hpath
  rw [Text.quoteIdent, String.toList_ofList]
  simp only [readField, hread, Option.bind_eq_bind, Option.bind_some, h]
  rfl

/-- An arrow and a step behind a column. -/
theorem readField_arrow {column : String} {step : String} {access : Access} {rest : List Char}
    (h : readStep (step.toList ++ rest) = some (access, rest)) :
    readField ((Text.quoteIdent column ++ "->>" ++ step).toList ++ rest)
      = some (⟨column, access⟩, rest) := by
  rw [String.toList_append, String.toList_append, List.append_assoc, List.append_assoc]
  exact readField_of_access (by rintro ⟨⟩) h

/-- A hash arrow and an array of steps behind a column. -/
theorem readField_hashArrow {column : String} {steps : String} {access : Access}
    {rest : List Char} (h : readSteps (steps.toList ++ rest) = some (access, rest)) :
    readField ((Text.quoteIdent column ++ "#>>" ++ steps).toList ++ rest)
      = some (⟨column, access⟩, rest) := by
  rw [String.toList_append, String.toList_append, List.append_assoc, List.append_assoc]
  exact readField_of_access (by rintro ⟨⟩) h

/-- The expression that follows a path is read up to its end. -/
theorem readField_followPath (column : String) (path : List Step) {rest : List Char}
    (h : EndsField rest) :
    readField ((followPath (Text.quoteIdent column) path).toList ++ rest)
      = some (⟨column, accessOf path⟩, rest) := by
  match path with
  | [] => exact readField_of_access (h.head?_ne (by decide)) (Sql.readAccess_of_endsField h)
  | [.member name] => exact readField_arrow (Sql.readStep_literal name h)
  | [.index position] =>
    rw [followPath, accessOf]
    rcases hposition : isPosition position with - | -
    · exact readField_arrow (Sql.readStep_literal position h)
    · exact readField_arrow (readStep_position hposition h)
  | s :: t :: path =>
    rw [followPath_cons_cons, accessOf_cons_cons]
    exact readField_hashArrow (readSteps_pathLiteral (s :: t :: path) h)

/-! ### Whole expressions -/

theorem place?_followPath (column : String) (path : List Step) :
    place? (followPath (Text.quoteIdent column) path) = some ⟨column, accessOf path⟩ := by
  have hread := readField_followPath column path Sql.endsField_nil
  rw [List.append_nil] at hread
  rw [place?, hread]

theorem place?_field_uncast (k : Key) : place? k.uncast.field = some k.columnPlace := by
  rw [field_uncast, place?_followPath, columnPlace]

theorem place?_bodyPath (k : Key) : place? k.bodyPath = some k.bodyPlace :=
  place?_followPath "body" (.member k.column :: k.path)

/-- Keys with the same expression over their column are made of the same. -/
theorem steps_of_field_eq {k k' : Key} (h : k.uncast.field = k'.uncast.field) :
    k.column = k'.column ∧ k.path.map Step.text = k'.path.map Step.text := by
  have hplace : k.columnPlace = k'.columnPlace := by
    apply Option.some.inj
    rw [← place?_field_uncast k, ← place?_field_uncast k', h]
  obtain ⟨hcolumn, haccess⟩ := Place.mk.inj hplace
  refine ⟨hcolumn, ?_⟩
  rw [← steps_accessOf, ← steps_accessOf, haccess]

/-- Keys with the same expression over the body are made of the same. -/
theorem steps_of_bodyPath_eq {k k' : Key} (h : k.bodyPath = k'.bodyPath) :
    k.column = k'.column ∧ k.path.map Step.text = k'.path.map Step.text := by
  have hplace : k.bodyPlace = k'.bodyPlace := by
    apply Option.some.inj
    rw [← place?_bodyPath k, ← place?_bodyPath k', h]
  obtain ⟨-, haccess⟩ := Place.mk.inj hplace
  have hsteps : (Step.member k.column :: k.path).map Step.text
      = (Step.member k'.column :: k'.path).map Step.text := by
    rw [← steps_accessOf, ← steps_accessOf, haccess]
  exact List.cons.inj hsteps

/-- Reading the expressions of a key gives back what they were made of: over its
own column the column and the steps of the path, over the body the column as the
first step and then the path.  A path of one step is behind an arrow, bare
when it is a position in an array; a longer one is an array literal behind a hash
arrow.  Hence keys with the same expression have the same column and the same
steps. -/
theorem places_of_expressions (k : Key) :
    (place? k.uncast.field = some ⟨k.column, accessOf k.path⟩
      ∧ (accessOf k.path).steps = k.path.map Step.text)
    ∧ (place? k.bodyPath = some ⟨"body", accessOf (.member k.column :: k.path)⟩
      ∧ (accessOf (.member k.column :: k.path)).steps = k.column :: k.path.map Step.text)
    ∧ ∀ k' : Key, k.uncast.field = k'.uncast.field ∨ k.bodyPath = k'.bodyPath →
        k.column = k'.column ∧ k.path.map Step.text = k'.path.map Step.text := by
  refine ⟨⟨place?_field_uncast k, steps_accessOf k.path⟩,
    ⟨place?_bodyPath k, steps_accessOf _⟩, ?_⟩
  intro k' h
  rcases h with h | h
  · exact steps_of_field_eq h
  · exact steps_of_bodyPath_eq h

end Key

/-! ### Texts that begin with an expression -/

namespace Sql

/-- The place that a text begins with, behind opening parentheses. -/
def leading (cs : List Char) : Option Place :=
  (readField (cs.dropWhile (· = '('))).map Prod.fst

/-- The text begins with a place, whatever follows that can stand behind an
expression. -/
def LeadsWith (text : String) (place : Place) : Prop :=
  ∀ rest, EndsField rest → leading (text.toList ++ rest) = some place

/-- A mark that can stand behind an expression. -/
def IsMark (mark : String) : Prop :=
  mark.toList.head? ∈ [some ' ', some ')', some ':']

instance (mark : String) : Decidable (IsMark mark) :=
  List.instDecidableMemOfLawfulBEq _ _

theorem IsMark.endsField {mark : String} (h : IsMark mark) (rest : List Char) :
    EndsField (mark.toList ++ rest) := by
  unfold IsMark at h
  rcases hchars : mark.toList with - | ⟨c, cs⟩
  · simp [hchars] at h
  · intro d hd
    obtain rfl : c = d := Option.some.inj hd
    simpa [hchars] using h

namespace LeadsWith

variable {text : String} {place : Place} (h : LeadsWith text place)
include h

theorem leading_eq : leading text.toList = some place := by
  have hrest := h [] endsField_nil
  rwa [List.append_nil] at hrest

/-- What stands behind an expression does not change its place. -/
theorem append {mark : String} (hmark : IsMark mark) (b : String) :
    LeadsWith (text ++ mark ++ b) place := by
  intro rest _
  rw [String.toList_append, String.toList_append, List.append_assoc, List.append_assoc]
  exact h _ (hmark.endsField _)

/-- Nor does a parenthesis in front. -/
theorem enclosed : LeadsWith ("(" ++ text) place := by
  intro rest hrest
  rw [String.toList_append, List.append_assoc]
  exact h rest hrest

theorem applyCast (wrap : Bool) (cast : Option String) :
    LeadsWith (Key.applyCast text wrap cast) place := by
  cases cast with
  | none => exact h
  | some type =>
    cases wrap with
    | true => exact h.enclosed.append (by decide) (Key.typeName type)
    | false => exact h.append (by decide) (Key.typeName type)

end LeadsWith

end Sql

namespace Key

open Sql (LeadsWith)

/-- An expression begins with its base. -/
theorem exists_followPath_eq (base : String) (path : List Step) :
    ∃ tail, followPath base path = base ++ tail := by
  unfold followPath
  split
  · exact ⟨"", String.append_empty.symm⟩
  · exact ⟨_, String.append_assoc⟩
  · split <;> exact ⟨_, String.append_assoc⟩
  · exact ⟨_, String.append_assoc⟩

theorem exists_toList_followPath (column : String) (path : List Step) :
    ∃ cs, (followPath (Text.quoteIdent column) path).toList = '"' :: cs := by
  obtain ⟨tail, htail⟩ := exists_followPath_eq (Text.quoteIdent column) path
  rw [htail, String.toList_append, Text.quoteIdent, String.toList_ofList]
  exact ⟨_, rfl⟩

theorem leadsWith_followPath (column : String) (path : List Step) :
    LeadsWith (followPath (Text.quoteIdent column) path) ⟨column, accessOf path⟩ := by
  intro rest hrest
  have hread := readField_followPath column path hrest
  obtain ⟨cs, hcs⟩ := exists_toList_followPath column path
  rw [hcs, List.cons_append] at hread
  rw [Sql.leading, hcs, List.cons_append, List.dropWhile_cons_of_neg (by decide), hread]
  rfl

theorem leadsWith_field (k : Key) : LeadsWith k.field k.columnPlace :=
  (leadsWith_followPath k.column k.path).applyCast k.isJson k.cast

theorem leadsWith_bodyPath (k : Key) : LeadsWith k.bodyPath k.bodyPlace :=
  leadsWith_followPath "body" (.member k.column :: k.path)

/-- A field that is a column of its own is another place than one in the body:
there the path has one step more. -/
theorem columnPlace_ne_bodyPlace (k : Key) : k.columnPlace ≠ k.bodyPlace := by
  intro h
  have hsteps := congrArg (fun p => p.access.steps.length) h
  simp only [columnPlace, bodyPlace, steps_accessOf, List.length_map, List.length_cons] at hsteps
  omega

end Key

end CriteriaSql
