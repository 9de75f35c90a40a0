/-
CriteriaSql/Text/Delimited.lean

Delimited text of SQL: a text between two equal quotes, with a quote inside
it written twice.  Identifiers use the double quote and literals the single
quote.

Main statement: reading a delimited text back gives the text and leaves what
follows, as long as what follows does not begin with the quote
(`read_write_append`).
-/

namespace CriteriaSql.Text.Delimited

/-- The inside of a delimited text: each quote twice, all else once. -/
def doubled (quote : Char) : List Char → List Char
  | [] => []
  | c :: cs => if c = quote then quote :: quote :: doubled quote cs else c :: doubled quote cs

/-- The delimited form of a text. -/
def write (quote : Char) (cs : List Char) : List Char :=
  quote :: (doubled quote cs ++ [quote])

/-- Read up to the quote that ends the token; a doubled quote is one quote of
the text.  The second part is what follows the token. -/
def readInside (quote : Char) : List Char → Option (List Char × List Char)
  | [] => none
  | [c] => if c = quote then some ([], []) else none
  | c :: d :: cs =>
    if c = quote then
      if d = quote then (readInside quote cs).map fun r => (quote :: r.1, r.2)
      else some ([], d :: cs)
    else (readInside quote (d :: cs)).map fun r => (c :: r.1, r.2)

/-- Read a delimited token from the front of a text. -/
def read (quote : Char) : List Char → Option (List Char × List Char)
  | [] => none
  | c :: cs => if c = quote then readInside quote cs else none

/-- Reading to the closing quote uses up at least that quote. -/
theorem length_lt_of_readInside {quote : Char} {cs : List Char} {r : List Char × List Char}
    (h : readInside quote cs = some r) : r.2.length < cs.length := by
  fun_induction readInside quote cs generalizing r with
  | case1 => simp at h
  | case2 => obtain rfl := Option.some.inj h; simp
  | case3 => simp at h
  | case4 =>
    obtain ⟨r', hr', rfl⟩ := Option.map_eq_some_iff.mp h
    rename_i ih
    have := ih hr'
    simp only [List.length_cons]
    omega
  | case5 => obtain rfl := Option.some.inj h; simp
  | case6 =>
    obtain ⟨r', hr', rfl⟩ := Option.map_eq_some_iff.mp h
    rename_i ih
    have := ih hr'
    simp only [List.length_cons] at this ⊢
    omega

theorem readInside_doubled_append (quote : Char) (cs : List Char) {rest : List Char}
    (h : rest.head? ≠ some quote) :
    readInside quote (doubled quote cs ++ quote :: rest) = some (cs, rest) := by
  induction cs with
  | nil =>
    cases rest with
    | nil => simp [doubled, readInside]
    | cons r rest =>
      have : r ≠ quote := by simpa using h
      simp [doubled, readInside, this]
  | cons c cs ih =>
    by_cases hc : c = quote
    · subst hc
      simp [doubled, readInside, ih]
    · simp only [doubled, if_neg hc, List.cons_append]
      generalize hw : doubled quote cs ++ quote :: rest = w at ih
      cases w with
      | nil => simp at hw
      | cons d ds => simp [readInside, hc, ih]

/-- What has been read up to the closing quote is the inside of a text, and the
text goes on behind the quote with another character. -/
theorem eq_doubled_append_of_readInside {quote : Char} {cs name rest : List Char}
    (h : readInside quote cs = some (name, rest)) :
    cs = doubled quote name ++ quote :: rest ∧ rest.head? ≠ some quote := by
  fun_induction readInside quote cs generalizing name rest with
  | case1 => cases h
  | case2 =>
    obtain ⟨rfl, rfl⟩ := Prod.mk.inj (Option.some.inj h)
    exact ⟨rfl, by simp⟩
  | case3 => cases h
  | case4 cs ih =>
    obtain ⟨⟨name, rest⟩, hr, e⟩ := Option.map_eq_some_iff.mp h
    obtain ⟨rfl, rfl⟩ := Prod.mk.inj e
    obtain ⟨rfl, hrest⟩ := ih hr
    exact ⟨by rw [doubled, if_pos rfl]; rfl, hrest⟩
  | case5 d cs hd =>
    obtain ⟨rfl, rfl⟩ := Prod.mk.inj (Option.some.inj h)
    exact ⟨rfl, by simpa using hd⟩
  | case6 c d cs hc ih =>
    obtain ⟨⟨name, rest⟩, hr, e⟩ := Option.map_eq_some_iff.mp h
    obtain ⟨rfl, rfl⟩ := Prod.mk.inj e
    obtain ⟨hshape, hrest⟩ := ih hr
    exact ⟨by rw [doubled, if_neg hc, hshape, List.cons_append], hrest⟩

/-- A delimited text is one token. -/
theorem read_write_append (quote : Char) (cs : List Char) {rest : List Char}
    (h : rest.head? ≠ some quote) :
    read quote (write quote cs ++ rest) = some (cs, rest) := by
  have := readInside_doubled_append quote cs h
  simpa [read, write] using this

end CriteriaSql.Text.Delimited

namespace CriteriaSql.Text

/-- A name as a delimited identifier: in double quotes, a double quote inside
written twice. -/
def quoteIdent (name : String) : String :=
  String.ofList (Delimited.write '"' name.toList)

/-- A text as a string literal: in single quotes, a single quote inside
written twice. -/
def quoteLiteral (text : String) : String :=
  String.ofList (Delimited.write '\'' text.toList)

end CriteriaSql.Text
