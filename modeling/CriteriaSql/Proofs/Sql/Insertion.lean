/-
CriteriaSql/Proofs/Sql/Insertion.lean

INSERT statements as they are read from the tokens of SQL text.

    insertion := INSERT INTO table rows
    rows      := DEFAULT VALUES
               | (columns) VALUES (numbers), ..., (numbers)
               | (columns) SELECT cells FROM source
    chain     := WITH name AS (insertion [ON CONFLICT DO NOTHING] [RETURNING *]), ...

A list in it may be empty.  The readers go through the words of a text from left
to right and leave what follows.  `ReadsAs read ts a` says that `ts` is read as
`a` whatever follows; it is kept by lists (`separated_intercalate`,
`readsAs_listed`).

Main results: an insertion that is written out is read back
(`readInsertion_tokens`), also as a link of a chain (`readsAs_link`).
-/
import CriteriaSql.Proofs.Sql.Words

namespace CriteriaSql.Sql

variable {α : Type}

/-! ### Reading -/

/-- Reads something off the front of a text, and leaves the tokens behind it. -/
abbrev Reader (α : Type) := List Token → Option (α × List Token)

/-- The tokens are read as `a`, whatever follows. -/
def ReadsAs (read : Reader α) (ts : List Token) (a : α) : Prop :=
  ∀ rest, read (ts ++ rest) = some (a, rest)

/-- Pass over the given tokens. -/
def expect : List Token → List Token → Option (List Token)
  | [], ts => some ts
  | _ :: _, [] => none
  | u :: us, t :: ts => if t = u then expect us ts else none

/-- Pass over the given tokens if they are there. -/
def pass (us ts : List Token) : List Token :=
  (expect us ts).getD ts

/-- Read one token. -/
def one (value : Token → Option α) : Reader α
  | [] => none
  | t :: ts => (value t).map fun a => (a, ts)

/-- Read items with the mark `c` between each two, as many as there are. -/
def separated (c : Char) (item : Reader α) (ts : List Token) : Option (List α × List Token) :=
  match item ts with
  | none => none
  | some (a, .mark d :: rest) =>
    if d = c ∧ rest.length < ts.length then
      (separated c item rest).map fun r => (a :: r.1, r.2)
    else some ([a], .mark d :: rest)
  | some (a, rest) => some ([a], rest)
termination_by ts.length

/-- Read a list, which may be empty, up to the token that ends it. -/
def upTo (last : Token) (item : Reader α) (ts : List Token) : Option (List α × List Token) :=
  match expect [last] ts with
  | some rest => some ([], rest)
  | none => do
    let (as, rest) ← separated ',' item ts
    let rest ← expect [last] rest
    return (as, rest)

/-- Read a list in parentheses. -/
def listed (item : Reader α) (ts : List Token) : Option (List α × List Token) :=
  (expect [.mark '('] ts).bind (upTo (.mark ')') item)

theorem expect_append (us ts : List Token) : expect us (us ++ ts) = some ts := by
  induction us with
  | nil => rfl
  | cons u us ih => rw [List.cons_append, expect, if_pos rfl, ih]

@[simp] theorem expect_singleton (t : Token) (ts : List Token) :
    expect [t] (t :: ts) = some ts :=
  expect_append [t] ts

theorem expect_of_ne {t u : Token} (h : t ≠ u) (us ts : List Token) :
    expect (u :: us) (t :: ts) = none := by
  rw [expect, if_neg h]

theorem readsAs_one {value : Token → Option α} {t : Token} {a : α} (h : value t = some a) :
    ReadsAs (one value) [t] a := by
  intro rest
  rw [List.singleton_append, one, h]
  rfl

/-- What is not the mark `c` ends a list. -/
def EndsList (c : Char) (rest : List Token) : Prop := rest.head? ≠ some (.mark c)

theorem separated_singleton {c : Char} {item : Reader α} {ts rest : List Token} {a : α}
    (h : item ts = some (a, rest)) (hrest : EndsList c rest) :
    separated c item ts = some ([a], rest) := by
  rcases rest with - | ⟨t, rest⟩
  · rw [separated, h]
  · cases t with
    | mark d =>
      have hd : d ≠ c := by
        rintro rfl
        exact hrest rfl
      rw [separated, h]
      exact if_neg fun hc => hd hc.1
    | quoted | unclosed | placeholder | word => rw [separated, h]

theorem separated_cons {c : Char} {item : Reader α} {ts us : List Token} {a : α}
    (h : ReadsAs item ts a) :
    separated c item (ts ++ .mark c :: us)
      = (separated c item us).map fun r => (a :: r.1, r.2) := by
  have hlength : us.length < (ts ++ .mark c :: us).length := by
    rw [List.length_append, List.length_cons]
    omega
  rw [separated, h]
  exact if_pos ⟨rfl, hlength⟩

/-- A list of items is read item by item. -/
theorem separated_intercalate {c : Char} {item : Reader α} {wss : List (List Token)} {as : List α}
    (h : List.Forall₂ (ReadsAs item) wss as) (hne : as ≠ []) {rest : List Token}
    (hrest : EndsList c rest) :
    separated c item ([Token.mark c].intercalate wss ++ rest) = some (as, rest) := by
  induction h with
  | nil => exact absurd rfl hne
  | cons hhead htail ih =>
    cases htail with
    | nil =>
      rw [List.intercalate_singleton]
      exact separated_singleton (hhead rest) hrest
    | cons _ _ =>
      rw [List.intercalate_cons_cons, List.append_assoc, List.append_assoc, List.singleton_append,
        separated_cons hhead, ih (List.cons_ne_nil _ _)]
      rfl

/-- A list is read up to the token that ends it, with which no item begins. -/
theorem readsAs_upTo {last : Token} (hlast : last ≠ .mark ',') {item : Reader α}
    {wss : List (List Token)} {as : List α} (h : List.Forall₂ (ReadsAs item) wss as)
    (hstart : ∀ ws ∈ wss, ∃ t ts, ws = t :: ts ∧ t ≠ last) :
    ReadsAs (upTo last item) ([Token.mark ','].intercalate wss ++ [last]) as := by
  intro rest
  rw [List.append_assoc, List.singleton_append, upTo]
  rcases h with - | ⟨hhead, htail⟩
  · -- the token that ends the list comes first
    rw [List.intercalate_nil, List.nil_append, expect_singleton]
  · have hends : EndsList ',' (last :: rest) := fun h => hlast (Option.some.inj h)
    have hitems := separated_intercalate (.cons hhead htail) (List.cons_ne_nil _ _) hends
    obtain ⟨t, ts, rfl, ht⟩ := hstart _ List.mem_cons_self
    have hnone : ∀ wss : List (List Token),
        expect [last] ([Token.mark ','].intercalate ((t :: ts) :: wss) ++ last :: rest) = none := by
      rintro (- | ⟨ws, wss⟩)
      · exact expect_of_ne ht [] _
      · exact expect_of_ne ht [] _
    rw [hnone]
    refine Option.bind_eq_some_iff.mpr ⟨_, hitems, ?_⟩
    exact Option.bind_eq_some_iff.mpr ⟨_, expect_singleton last rest, rfl⟩

/-- The tokens of a list in parentheses. -/
def parenthesized (wss : List (List Token)) : List Token :=
  .mark '(' :: ([.mark ','].intercalate wss ++ [.mark ')'])

/-- A list in parentheses is read as its items. -/
theorem readsAs_listed {item : Reader α} {wss : List (List Token)} {as : List α}
    (h : List.Forall₂ (ReadsAs item) wss as)
    (hstart : ∀ ws ∈ wss, ∃ t ts, ws = t :: ts ∧ t ≠ .mark ')') :
    ReadsAs (listed item) (parenthesized wss) as := by
  intro rest
  rw [listed, parenthesized, List.cons_append, expect_singleton]
  exact readsAs_upTo (by decide) h hstart rest

/-- Single tokens, none of which is `last`. -/
theorem singletons_ne {last : Token} {token : α → Token} {xs : List α}
    (h : ∀ x ∈ xs, token x ≠ last) :
    ∀ ws ∈ xs.map fun x => [token x], ∃ t ts, ws = t :: ts ∧ t ≠ last := by
  intro ws hws
  obtain ⟨x, hx, rfl⟩ := List.mem_map.mp hws
  exact ⟨token x, [], rfl, h x hx⟩

/-- Tokens that are read one by one. -/
theorem forall₂_readsAs_one {value : Token → Option α} {token : α → Token}
    (h : ∀ a, value (token a) = some a) (as : List α) :
    List.Forall₂ (ReadsAs (one value)) (as.map fun a => [token a]) as := by
  have hall := forall₂_map (g := id) fun a (_ : a ∈ as) => readsAs_one (h a)
  rwa [List.map_id] at hall

/-! ### Insertions -/

/-- What one place of an inserted row is taken from. -/
inductive Cell where
  | column (name : String)
  | parameter (n : Nat)
deriving DecidableEq, Repr

/-- The rows of an insertion: one row of defaults, tuples of parameters, or
cells for each row of another relation. -/
inductive Rows where
  | defaults
  | tuples (rows : List (List Nat))
  | select (cells : List Cell) (source : String)
deriving DecidableEq, Repr

/-- An INSERT statement: the parts of the name of its table, its columns and
its rows. -/
structure Insertion where
  table : List String
  columns : List String
  rows : Rows
deriving DecidableEq, Repr

/-- The name that a quoted identifier stands for. -/
def Token.name? : Token → Option String
  | .quoted .identifier content => some (String.ofList content)
  | _ => none

/-- The text of a word. -/
def Token.letters? : Token → Option String
  | .word letters => some (String.ofList letters)
  | _ => none

/-- The cell that a token stands for. -/
def Token.cell? (t : Token) : Option Cell :=
  match t.name? with
  | some name => some (.column name)
  | none => t.number?.map .parameter

/-- The tuples of an insertion, or the cells that it selects. -/
def readValues (ts : List Token) : Option (Rows × List Token) :=
  match expect (words "VALUES") ts with
  | some ts => (separated ',' (listed (one Token.number?)) ts).map fun r => (.tuples r.1, r.2)
  | none => do
    let ts ← expect (words "SELECT") ts
    let (cells, ts) ← upTo (.word "FROM".toList) (one Token.cell?) ts
    let (source, ts) ← one Token.letters? ts
    return (.select cells source, ts)

/-- The columns and the rows of an insertion. -/
def readRows (ts : List Token) : Option ((List String × Rows) × List Token) :=
  match expect (words "DEFAULT VALUES") ts with
  | some ts => some (([], .defaults), ts)
  | none => do
    let (columns, ts) ← listed (one Token.name?) ts
    let (rows, ts) ← readValues ts
    return ((columns, rows), ts)

/-- An INSERT statement, up to what follows its rows. -/
def readInsertion (ts : List Token) : Option (Insertion × List Token) := do
  let ts ← expect (words "INSERT INTO") ts
  let (table, ts) ← separated '.' (one Token.name?) ts
  let ((columns, rows), ts) ← readRows ts
  return (⟨table, columns, rows⟩, ts)

/-- One insertion of a chain, with its name. -/
def readLink (ts : List Token) : Option ((String × Insertion) × List Token) := do
  let (name, ts) ← one Token.letters? ts
  let ts ← expect (words "AS (") ts
  let (insertion, ts) ← readInsertion ts
  let ts ← expect [.mark ')']
    (pass (words "RETURNING *") (pass (words "ON CONFLICT DO NOTHING") ts))
  return ((name, insertion), ts)

/-- The insertions of a chain, up to what follows them. -/
def readChain (ts : List Token) : Option (List (String × Insertion) × List Token) := do
  let ts ← expect (words "WITH") ts
  separated ',' readLink ts

/-! ### Insertions that are written out -/

/-- The token of a cell. -/
def Cell.token : Cell → Token
  | .column name => nameToken name
  | .parameter n => numberToken n

/-- The tokens of tuples, or of selected cells. -/
def Rows.tokens : Rows → List Token
  | .defaults => []
  | .tuples rows =>
    words "VALUES"
      ++ [.mark ','].intercalate
        (rows.map fun row => parenthesized (row.map fun n => [numberToken n]))
  | .select cells source =>
    words "SELECT"
      ++ ([.mark ','].intercalate (cells.map fun c => [c.token]) ++ [.word "FROM".toList])
      ++ [.word source.toList]

/-- The tokens of the columns and rows. -/
def Insertion.rowTokens (i : Insertion) : List Token :=
  match i.rows with
  | .defaults => words "DEFAULT VALUES"
  | rows => parenthesized (i.columns.map fun c => [nameToken c]) ++ rows.tokens

/-- The tokens of an insertion. -/
def Insertion.tokens (i : Insertion) : List Token :=
  words "INSERT INTO" ++ [.mark '.'].intercalate (i.table.map fun p => [nameToken p]) ++ i.rowTokens

/-- The table has a name, defaults go with no columns, and there is a tuple. -/
structure Insertion.Printable (i : Insertion) : Prop where
  table : i.table ≠ []
  rows : match i.rows with
    | .defaults => i.columns = []
    | .tuples rows => rows ≠ []
    | .select _ _ => True

@[simp] theorem name?_nameToken (name : String) : (nameToken name).name? = some name := by
  rw [nameToken, Token.name?, String.ofList_toList]

@[simp] theorem number?_numberToken (n : Nat) : (numberToken n).number? = some n := by
  simp [numberToken, Token.number?]

@[simp] theorem cell?_token (c : Cell) : c.token.cell? = some c := by
  cases c with
  | column name => rw [Cell.token, Token.cell?, name?_nameToken]
  | parameter n =>
    have hname : (numberToken n).name? = none := rfl
    rw [Cell.token, Token.cell?, hname, number?_numberToken]
    rfl

@[simp] theorem letters?_word (text : String) : (Token.word text.toList).letters? = some text := by
  rw [Token.letters?, String.ofList_toList]

theorem words_defaults :
    words "DEFAULT VALUES" = [.word "DEFAULT".toList, .word "VALUES".toList] := by
  decide

theorem readsAs_names (cs : List String) :
    ReadsAs (listed (one Token.name?)) (parenthesized (cs.map fun c => [nameToken c])) cs :=
  readsAs_listed (forall₂_readsAs_one name?_nameToken cs)
    (singletons_ne fun _ _ h => nomatch h)

theorem readsAs_numbers (row : List Nat) :
    ReadsAs (listed (one Token.number?)) (parenthesized (row.map fun n => [numberToken n])) row :=
  readsAs_listed (forall₂_readsAs_one number?_numberToken row)
    (singletons_ne fun _ _ h => nomatch h)

theorem readsAs_cells (cells : List Cell) :
    ReadsAs (upTo (.word "FROM".toList) (one Token.cell?))
      ([.mark ','].intercalate (cells.map fun c => [c.token]) ++ [.word "FROM".toList]) cells := by
  refine readsAs_upTo (by decide) (forall₂_readsAs_one cell?_token cells) (singletons_ne ?_)
  rintro (name | n) _
  · exact fun h => nomatch h
  · exact fun h => nomatch h

theorem readValues_tuples {rows : List (List Nat)} (hne : rows ≠ []) {rest : List Token}
    (hrest : EndsList ',' rest) :
    readValues ((Rows.tuples rows).tokens ++ rest) = some (.tuples rows, rest) := by
  have hall := forall₂_map (g := id) fun row (_ : row ∈ rows) => readsAs_numbers row
  rw [List.map_id] at hall
  have hrows := separated_intercalate hall hne hrest
  rw [Rows.tokens, List.append_assoc, readValues, expect_append]
  exact congrArg (Option.map _) hrows

theorem readsAs_select (cells : List Cell) (source : String) :
    ReadsAs readValues (Rows.select cells source).tokens (.select cells source) := by
  intro rest
  have hvalues : words "VALUES" = [.word "VALUES".toList] := by decide
  have hselect : words "SELECT" = [.word "SELECT".toList] := by decide
  have hnone : ∀ ts, expect (words "VALUES") (words "SELECT" ++ ts) = none := by
    intro ts
    rw [hvalues, hselect]
    exact expect_of_ne (by decide) [] ts
  have hsource := readsAs_one (letters?_word source) rest
  rw [Rows.tokens, List.append_assoc, List.append_assoc, readValues, hnone]
  refine Option.bind_eq_some_iff.mpr ⟨_, expect_append _ _, ?_⟩
  refine Option.bind_eq_some_iff.mpr ⟨_, readsAs_cells cells _, ?_⟩
  exact Option.bind_eq_some_iff.mpr ⟨_, hsource, rfl⟩

/-- Columns are no DEFAULT VALUES. -/
theorem readRows_columns (cs : List String) {ts rest : List Token} {rows : Rows}
    (h : readValues ts = some (rows, rest)) :
    readRows (parenthesized (cs.map fun c => [nameToken c]) ++ ts) = some ((cs, rows), rest) := by
  have hnone : expect (words "DEFAULT VALUES")
      (parenthesized (cs.map fun c => [nameToken c]) ++ ts) = none := by
    rw [words_defaults]
    rfl
  rw [readRows, hnone]
  refine Option.bind_eq_some_iff.mpr ⟨_, readsAs_names cs ts, ?_⟩
  exact Option.bind_eq_some_iff.mpr ⟨_, h, rfl⟩

/-- The rows of an insertion are read up to what follows them, which is no
comma. -/
theorem readRows_tokens {i : Insertion} (hi : i.Printable) {rest : List Token}
    (hrest : EndsList ',' rest) :
    readRows (i.rowTokens ++ rest) = some ((i.columns, i.rows), rest) := by
  obtain ⟨-, hrows⟩ := hi
  rcases i with ⟨table, columns, - | rows | ⟨cells, source⟩⟩
  · obtain rfl : columns = [] := hrows
    rw [Insertion.rowTokens, readRows, expect_append]
  · rw [Insertion.rowTokens, List.append_assoc]
    exact readRows_columns columns (readValues_tuples hrows hrest)
  · rw [Insertion.rowTokens, List.append_assoc]
    exact readRows_columns columns (readsAs_select cells source rest)

theorem endsList_rowTokens (i : Insertion) (rest : List Token) :
    EndsList '.' (i.rowTokens ++ rest) := by
  rcases i with ⟨table, columns, - | rows | ⟨cells, source⟩⟩
  · rw [Insertion.rowTokens, words_defaults]
    exact fun h => nomatch h
  · exact fun h => absurd (Option.some.inj h) (by decide)
  · exact fun h => absurd (Option.some.inj h) (by decide)

/-- An insertion is read back. -/
theorem readInsertion_tokens {i : Insertion} (hi : i.Printable) {rest : List Token}
    (hrest : EndsList ',' rest) : readInsertion (i.tokens ++ rest) = some (i, rest) := by
  have htable := separated_intercalate (forall₂_readsAs_one name?_nameToken i.table) hi.table
    (endsList_rowTokens i rest)
  rw [Insertion.tokens, List.append_assoc, List.append_assoc, readInsertion]
  refine Option.bind_eq_some_iff.mpr ⟨_, expect_append _ _, ?_⟩
  refine Option.bind_eq_some_iff.mpr ⟨_, htable, ?_⟩
  exact Option.bind_eq_some_iff.mpr ⟨_, readRows_tokens hi hrest, rfl⟩

/-! ### Chains that are written out -/

/-- What may follow an insertion in a chain. -/
def tailTokens (conflicts returned : Bool) : List Token :=
  (if conflicts then words "ON CONFLICT DO NOTHING" else [])
    ++ if returned then words "RETURNING *" else []

/-- The tokens of an insertion of a chain. -/
def linkTokens (name : String) (i : Insertion) (conflicts returned : Bool) : List Token :=
  .word name.toList :: words "AS (" ++ i.tokens ++ tailTokens conflicts returned ++ [.mark ')']

theorem pass_tailTokens (conflicts returned : Bool) (rest : List Token) :
    pass (words "RETURNING *") (pass (words "ON CONFLICT DO NOTHING")
      (tailTokens conflicts returned ++ .mark ')' :: rest)) = .mark ')' :: rest := by
  cases conflicts <;> cases returned <;> rfl

theorem readsAs_link (name : String) {i : Insertion} (hi : i.Printable)
    (conflicts returned : Bool) :
    ReadsAs readLink (linkTokens name i conflicts returned) (name, i) := by
  intro rest
  have hrest : EndsList ',' (tailTokens conflicts returned ++ .mark ')' :: rest) := by
    cases conflicts <;> cases returned <;> exact fun h => absurd (Option.some.inj h) (by decide)
  rw [linkTokens, List.append_assoc, List.append_assoc, List.append_assoc, List.singleton_append,
    List.cons_append, readLink]
  refine Option.bind_eq_some_iff.mpr ⟨_, readsAs_one (letters?_word name) _, ?_⟩
  refine Option.bind_eq_some_iff.mpr ⟨_, expect_append _ _, ?_⟩
  refine Option.bind_eq_some_iff.mpr ⟨_, readInsertion_tokens hi hrest, ?_⟩
  refine Option.bind_eq_some_iff.mpr ⟨rest, ?_, rfl⟩
  rw [pass_tailTokens, expect_singleton]

/-! ### What is inserted -/

/-- The value of a placeholder; the numbers begin with one. -/
def param? (params : List α) : Nat → Option α
  | 0 => none
  | n + 1 => params[n]?

/-- What one place of an inserted row holds, as far as the statement says it. -/
inductive Slot (α : Type) where
  | column (name : String)
  | value (a : α)
deriving DecidableEq, Repr

/-- What a cell stands for. -/
def Cell.slot? (params : List α) : Cell → Option (Slot α)
  | .column name => some (.column name)
  | .parameter n => (param? params n).map .value

/-- The values of rows that are written out; a row of defaults has none. -/
def Rows.values? (params : List α) : Rows → Option (List (List α))
  | .defaults => some [[]]
  | .tuples rows => rows.mapM fun row => row.mapM (param? params)
  | .select _ _ => none

theorem param?_append (before : List α) (a : α) (after : List α) :
    param? (before ++ a :: after) (before.length + 1) = some a := by
  rw [param?, List.getElem?_append_right (Nat.le_refl _), Nat.sub_self, List.getElem?_cons_zero]

/-- The numbers that follow those of `before` stand for what follows it. -/
theorem mapM_param?_range' (before row after : List α) :
    (List.range' (before.length + 1) row.length).mapM (param? (before ++ row ++ after))
      = some row := by
  induction row generalizing before with
  | nil => rfl
  | cons a row ih =>
    have hrest := ih (before ++ [a])
    rw [List.append_assoc before, List.singleton_append, List.length_append] at hrest
    rw [List.length_cons, List.range'_succ, List.mapM_cons]
    refine Option.bind_eq_some_iff.mpr ⟨a, ?_, Option.bind_eq_some_iff.mpr ⟨row, hrest, rfl⟩⟩
    rw [List.append_assoc]
    exact param?_append before a (row ++ after)

end CriteriaSql.Sql
