/-
CriteriaSql/Proofs/Key/RoundTrip.lean

Keys with every part in quotes are read back.

Between quotes the scan only collects characters (`scan_inQuotes`), so that
dots, brackets, colons and blanks separate parts only outside of quotes.  A part
is finished by the separator behind it, which is why a state is described by
what it has read once the part in hand is finished (`Scan.Reads`).  One step of
a path extends that by the step (`scan_quotedStep`), and a run over a path by
the path (`scan_quotedPath`).

Main result: `parse_quoted`.
-/
import CriteriaSql.Key.Parser

namespace CriteriaSql.Key

open Text (isBlank trim trimEnd words lowercase)

/-! ### Quoted keys -/

/-- A part of a key between double quotes. -/
def inQuotes (part : String) : String :=
  "\"" ++ part ++ "\""

/-- A step of a path: a member behind a dot, a position in brackets. -/
def quotedStep : Step → String
  | .member name => "." ++ inQuotes name
  | .index position => "[" ++ inQuotes position ++ "]"

/-- The steps of a path, one after the other. -/
def quotedPath : List Step → String
  | [] => ""
  | step :: path => quotedStep step ++ quotedPath path

/-- A cast, when there is one. -/
def quotedCast : Option String → String
  | none => ""
  | some type => "::" ++ inQuotes type

/-- The field of a key: its column, path and cast, each part in quotes. -/
def quoted (column : String) (path : List Step) (cast : Option String) : String :=
  inQuotes column ++ quotedPath path ++ quotedCast cast

/-- A text that stands between quotes as it is. -/
def IsQuotable (text : String) : Prop :=
  '"' ∉ text.toList

instance (text : String) : Decidable (IsQuotable text) :=
  inferInstanceAs (Decidable ('"' ∉ text.toList))

theorem toList_inQuotes (part : String) :
    (inQuotes part).toList = '"' :: (part.toList ++ ['"']) := by
  simp [inQuotes]

/-! ### What a state has read -/

namespace Scan

@[simp] theorem token_flush (s : Scan) : s.flush.token = [] := by
  unfold flush
  split <;> try split
  all_goals rfl

@[simp] theorem quoted_flush (s : Scan) : s.flush.quoted = s.quoted := by
  unfold flush
  split <;> try split
  all_goals rfl

@[simp] theorem slot_flush (s : Scan) : s.flush.slot = s.slot := by
  unfold flush
  split <;> try split
  all_goals rfl

/-- Finishing a part leaves nothing to be finished. -/
@[simp] theorem flush_flush (s : Scan) : s.flush.flush = s.flush := by
  have htoken := token_flush s
  generalize s.flush = t at htoken
  obtain ⟨columnChars, path, cast, slot, token, quoted⟩ := t
  obtain rfl : token = [] := htoken
  cases slot <;> simp [flush]

theorem cast_eq_none_of_flush {s : Scan} (h : s.flush.cast = none) : s.cast = none := by
  unfold flush at h
  split at h
  · exact h
  · split at h <;> exact h
  · split at h <;> exact h
  · split at h
    · exact h
    · cases h

/-- The state after a separator and the part behind it. -/
def reading (s : Scan) (slot : Slot) (part : List Char) : Scan :=
  { s.switch slot with token := part }

@[simp] theorem quoted_reading (s : Scan) (slot : Slot) (part : List Char) :
    (s.reading slot part).quoted = s.quoted := quoted_flush s

theorem flush_reading_member (s : Scan) {part : List Char} (h : part ≠ []) :
    (s.reading .member part).flush
      = { s.switch .member with path := s.flush.path ++ [.member (String.ofList part)] } := by
  have htoken := token_flush s
  unfold reading switch
  generalize s.flush = t at htoken ⊢
  simp [flush, h, htoken]

theorem flush_reading_index (s : Scan) {part : List Char} (h : part ≠ []) :
    (s.reading .index part).flush
      = { s.switch .index with path := s.flush.path ++ [.index (String.ofList part)] } := by
  have htoken := token_flush s
  unfold reading switch
  generalize s.flush = t at htoken ⊢
  simp [flush, h, htoken]

theorem flush_reading_cast (s : Scan) {part : List Char} (h : part ≠ []) :
    (s.reading .cast part).flush = { s.switch .cast with cast := some part } := by
  have htoken := token_flush s
  unfold reading switch
  generalize s.flush = t at htoken ⊢
  simp [flush, h, htoken]

/-- Outside of quotes, the parts that are read once the part in hand is
finished. -/
structure Reads (s : Scan) (column : List Char) (path : List Step) (cast : Option (List Char)) :
    Prop where
  unquoted : s.quoted = false
  column_eq : s.flush.columnChars = column
  path_eq : s.flush.path = path
  cast_eq : s.flush.cast = cast

/-- The column and the steps of the path so far have been read, and brackets
are separators. -/
structure OnPath (s : Scan) (column : List Char) (path : List Step) : Prop extends
    Reads s column path none where
  slot_ne : s.slot ≠ .cast

end Scan

/-! ### Quotes -/

/-- A double quote opens or closes. -/
theorem scan_quote (s : Scan) (cs : List Char) :
    scan s ('"' :: cs) = scan { s with quoted := !s.quoted } cs := by
  rw [scan]
  · rcases h : s.quoted with - | - <;> simp
  · intro rest h
    cases h

/-- Between quotes every other character is collected, whatever it is. -/
theorem scan_collect {s : Scan} (hs : s.quoted = true) {c : Char} (hc : c ≠ '"')
    (cs : List Char) : scan s (c :: cs) = scan (s.push c) cs := by
  rw [scan.eq_def]
  split
  · next h => cases h
  · next rest h =>
    -- two colons, of which the first is collected
    obtain ⟨rfl, rfl⟩ := List.cons.inj h
    simp [hs]
  · next h =>
    obtain ⟨rfl, rfl⟩ := List.cons.inj h
    rw [if_pos hs, if_neg hc]

theorem scan_collect_append {s : Scan} (hs : s.quoted = true) {cs : List Char} (h : '"' ∉ cs)
    (rest : List Char) : scan s (cs ++ rest) = scan { s with token := s.token ++ cs } rest := by
  induction cs generalizing s with
  | nil => simp
  | cons c cs ih =>
    have hc : c ≠ '"' := fun e => h (e ▸ List.mem_cons_self)
    have hcs : '"' ∉ cs := fun hmem => h (List.mem_cons_of_mem c hmem)
    rw [List.cons_append, scan_collect hs hc, ih (s := s.push c) hs hcs]
    simp [Scan.push]

/-- A part in quotes is collected as a whole. -/
theorem scan_inQuotes {s : Scan} (hs : s.quoted = false) {part : String} (h : IsQuotable part)
    (rest : List Char) : scan s ((inQuotes part).toList ++ rest)
      = scan { s with token := s.token ++ part.toList } rest := by
  rw [toList_inQuotes, List.cons_append, List.append_assoc, scan_quote,
    scan_collect_append (by simp [hs]) h, List.singleton_append, scan_quote]
  simp [hs]

/-! ### Separators -/

theorem scan_dot {s : Scan} (hs : s.quoted = false) (rest : List Char) :
    scan s ('.' :: rest) = scan (s.switch .member) rest := by
  rw [scan]
  · simp [hs]
  · intro rest h
    cases h

theorem scan_opening {s : Scan} (hs : s.quoted = false) (hslot : s.slot ≠ .cast)
    (rest : List Char) : scan s ('[' :: rest) = scan (s.switch .index) rest := by
  rw [scan]
  · simp [hs, hslot]
  · intro rest h
    cases h

theorem scan_closing {s : Scan} (hs : s.quoted = false) (hslot : s.slot ≠ .cast)
    (rest : List Char) : scan s (']' :: rest) = scan s.flush rest := by
  rw [scan]
  · simp [hs, hslot]
  · intro rest h
    cases h

theorem scan_colons {s : Scan} (hs : s.quoted = false) (hcast : s.cast = none)
    (rest : List Char) : scan s (':' :: ':' :: rest) = scan (s.switch .cast) rest := by
  rw [scan]
  simp [hs, hcast]

/-- The scan ends at a blank, and at the end of the text. -/
theorem scan_end {s : Scan} (hs : s.quoted = false) {rest : List Char}
    (h : ∀ c ∈ rest.head?, isBlank c = true) : scan s rest = (s.flush, rest) := by
  rcases rest with - | ⟨c, cs⟩
  · rw [scan]
  · have hblank : isBlank c = true := h c rfl
    have hne : ∀ d, isBlank d = false → c ≠ d := by
      rintro d hd rfl
      rw [hblank] at hd
      cases hd
    rw [scan]
    · simp [hs, hblank, hne '"' rfl, hne '.' rfl, hne '[' rfl, hne ']' rfl]
    · rintro rest rfl
      cases hblank

/-! ### The parts of a key -/

/-- A part in quotes behind a separator. -/
theorem scan_switch {s : Scan} (hs : s.quoted = false) (slot : Slot) {part : String}
    (h : IsQuotable part) (rest : List Char) :
    scan (s.switch slot) ((inQuotes part).toList ++ rest)
      = scan (s.reading slot part.toList) rest := by
  have hswitch : (s.switch slot).quoted = false := (Scan.quoted_flush s).trans hs
  have htoken : (s.switch slot).token = [] := Scan.token_flush s
  rw [scan_inQuotes hswitch h, htoken, List.nil_append]
  rfl

/-- One step of a path. -/
theorem scan_quotedStep {s : Scan} {column : List Char} {path : List Step}
    (h : s.OnPath column path) {step : Step} (hne : step.text ≠ "") (hstep : IsQuotable step.text)
    (rest : List Char) : ∃ s', Scan.OnPath s' column (path ++ [step])
      ∧ scan s ((quotedStep step).toList ++ rest) = scan s' rest := by
  cases step with
  | member name =>
    replace hstep : IsQuotable name := hstep
    have hchars : name.toList ≠ [] := by simpa [Step.text] using hne
    refine ⟨s.reading .member name.toList, ?_, ?_⟩
    · have hflush := Scan.flush_reading_member s hchars
      refine ⟨⟨?_, ?_, ?_, ?_⟩, ?_⟩
      · exact (Scan.quoted_reading s _ _).trans h.unquoted
      · rw [hflush]
        exact h.column_eq
      · rw [hflush, h.path_eq, String.ofList_toList]
      · rw [hflush]
        exact h.cast_eq
      · exact Slot.noConfusion
    · have htext : (quotedStep (.member name)).toList = '.' :: (inQuotes name).toList := by
        simp [quotedStep]
      rw [htext, List.cons_append, scan_dot h.unquoted]
      exact scan_switch h.unquoted .member hstep rest
  | index position =>
    replace hstep : IsQuotable position := hstep
    have hchars : position.toList ≠ [] := by simpa [Step.text] using hne
    have hquoted : (s.reading .index position.toList).quoted = false :=
      (Scan.quoted_reading s _ _).trans h.unquoted
    -- the closing bracket finishes the part
    refine ⟨(s.reading .index position.toList).flush, ?_, ?_⟩
    · have hflush := Scan.flush_reading_index s hchars
      refine ⟨⟨?_, ?_, ?_, ?_⟩, ?_⟩
      · rw [Scan.quoted_flush, hquoted]
      · rw [Scan.flush_flush, hflush]
        exact h.column_eq
      · rw [Scan.flush_flush, hflush, h.path_eq, String.ofList_toList]
      · rw [Scan.flush_flush, hflush]
        exact h.cast_eq
      · rw [Scan.slot_flush]
        exact Slot.noConfusion
    · have htext : (quotedStep (.index position)).toList
          = '[' :: ((inQuotes position).toList ++ [']']) := by
        simp [quotedStep]
      rw [htext, List.cons_append, List.append_assoc, scan_opening h.unquoted h.slot_ne,
        scan_switch h.unquoted .index hstep, List.singleton_append]
      exact scan_closing hquoted Slot.noConfusion rest

/-- The steps of a path, one after the other. -/
theorem scan_quotedPath {s : Scan} {column : List Char} {before path : List Step}
    (h : s.OnPath column before)
    (hpath : ∀ step ∈ path, step.text ≠ "" ∧ IsQuotable step.text) (rest : List Char) :
    ∃ s', Scan.OnPath s' column (before ++ path)
      ∧ scan s ((quotedPath path).toList ++ rest) = scan s' rest := by
  induction path generalizing s before with
  | nil => exact ⟨s, by rwa [List.append_nil], rfl⟩
  | cons step path ih =>
    obtain ⟨hne, hstep⟩ := hpath step List.mem_cons_self
    obtain ⟨s₁, h₁, hscan₁⟩ := scan_quotedStep h hne hstep ((quotedPath path).toList ++ rest)
    obtain ⟨s₂, h₂, hscan₂⟩ := ih h₁ fun step' hmem => hpath step' (List.mem_cons_of_mem _ hmem)
    refine ⟨s₂, ?_, ?_⟩
    · rwa [List.append_assoc, List.singleton_append] at h₂
    · rw [quotedPath, String.toList_append, List.append_assoc, hscan₁, hscan₂]

/-- The cast, which is the last part. -/
theorem scan_quotedCast {s : Scan} {column : List Char} {path : List Step}
    (h : s.OnPath column path) {cast : Option String}
    (hcast : ∀ type ∈ cast, type ≠ "" ∧ IsQuotable type) (rest : List Char) :
    ∃ s', Scan.Reads s' column path (cast.map String.toList)
      ∧ scan s ((quotedCast cast).toList ++ rest) = scan s' rest := by
  cases cast with
  | none => exact ⟨s, h.toReads, rfl⟩
  | some type =>
    obtain ⟨hne, hquotable⟩ := hcast type rfl
    have hchars : type.toList ≠ [] := by simpa using hne
    refine ⟨s.reading .cast type.toList, ?_, ?_⟩
    · have hflush := Scan.flush_reading_cast s hchars
      refine ⟨(Scan.quoted_reading s _ _).trans h.unquoted, ?_, ?_, ?_⟩
      · rw [hflush]
        exact h.column_eq
      · rw [hflush]
        exact h.path_eq
      · rw [hflush]
        rfl
    · have htext : (quotedCast (some type)).toList = ':' :: ':' :: (inQuotes type).toList := by
        simp [quotedCast]
      rw [htext, List.cons_append, List.cons_append,
        scan_colons h.unquoted (Scan.cast_eq_none_of_flush h.cast_eq)]
      exact scan_switch h.unquoted .cast hquotable rest

/-! ### The whole key -/

/-- All parts of a key are read, up to the blank behind them. -/
theorem scan_quoted {column : String} {path : List Step} {cast : Option String}
    (hcolumn : IsQuotable column)
    (hpath : ∀ step ∈ path, step.text ≠ "" ∧ IsQuotable step.text)
    (hcast : ∀ type ∈ cast, type ≠ "" ∧ IsQuotable type) {rest : List Char}
    (hrest : ∀ c ∈ rest.head?, isBlank c = true) :
    ∃ s, Scan.Reads s column.toList path (cast.map String.toList)
      ∧ scan Scan.start ((quoted column path cast).toList ++ rest) = (s.flush, rest) := by
  have hstart : Scan.OnPath { Scan.start with token := column.toList } column.toList [] :=
    ⟨⟨rfl, rfl, rfl, rfl⟩, Slot.noConfusion⟩
  obtain ⟨s₁, h₁, hscan₁⟩ := scan_quotedPath hstart hpath ((quotedCast cast).toList ++ rest)
  obtain ⟨s₂, h₂, hscan₂⟩ := scan_quotedCast h₁ hcast rest
  refine ⟨s₂, h₂, ?_⟩
  calc scan Scan.start ((quoted column path cast).toList ++ rest)
      = scan Scan.start ((inQuotes column).toList
          ++ ((quotedPath path).toList ++ ((quotedCast cast).toList ++ rest))) := by
        simp [quoted, List.append_assoc]
    _ = scan { Scan.start with token := column.toList }
          ((quotedPath path).toList ++ ((quotedCast cast).toList ++ rest)) :=
        scan_inQuotes rfl hcolumn _
    _ = scan s₂ rest := hscan₁.trans hscan₂
    _ = (s₂.flush, rest) := scan_end h₂.unquoted hrest

/-! ### Blanks around a key -/

/-- A text that ends in a character that is not blank, or is empty. -/
def EndsSolid (text : String) : Prop :=
  ∀ c ∈ text.toList.getLast?, isBlank c = false

theorem endsSolid_of_getLast? {text : String} {last : Char}
    (hlast : text.toList.getLast? = some last) (hsolid : isBlank last = false) :
    EndsSolid text := by
  intro c hc
  rw [hlast] at hc
  obtain rfl := Option.some.inj hc
  exact hsolid

theorem EndsSolid.append {a b : String} (ha : EndsSolid a) (hb : EndsSolid b) :
    EndsSolid (a ++ b) := by
  intro c hc
  rw [String.toList_append, List.getLast?_append] at hc
  rcases hlast : b.toList.getLast? with - | d
  · rw [hlast, Option.none_or] at hc
    exact ha c hc
  · rw [hlast, Option.some_or] at hc
    exact hb c (hlast.trans hc)

theorem endsSolid_inQuotes (part : String) : EndsSolid (inQuotes part) := by
  have hlast : (inQuotes part).toList.getLast? = some '"' := by
    rw [toList_inQuotes, ← List.cons_append, List.getLast?_append]
    rfl
  exact endsSolid_of_getLast? hlast rfl

theorem endsSolid_quotedStep (step : Step) : EndsSolid (quotedStep step) := by
  cases step with
  | member name =>
    have hdot : EndsSolid "." := endsSolid_of_getLast? rfl rfl
    exact hdot.append (endsSolid_inQuotes name)
  | index position =>
    have hopening : EndsSolid "[" := endsSolid_of_getLast? rfl rfl
    have hclosing : EndsSolid "]" := endsSolid_of_getLast? rfl rfl
    exact (hopening.append (endsSolid_inQuotes position)).append hclosing

theorem endsSolid_quotedPath (path : List Step) : EndsSolid (quotedPath path) := by
  induction path with
  | nil => exact fun c hc => nomatch hc
  | cons step path ih => exact (endsSolid_quotedStep step).append ih

theorem endsSolid_quoted (column : String) (path : List Step) (cast : Option String) :
    EndsSolid (quoted column path cast) := by
  refine ((endsSolid_inQuotes column).append (endsSolid_quotedPath path)).append ?_
  cases cast with
  | none => exact fun c hc => nomatch hc
  | some type =>
    have hcolons : EndsSolid "::" := endsSolid_of_getLast? rfl rfl
    exact hcolons.append (endsSolid_inQuotes type)

/-- Only blanks behind the key are trimmed. -/
theorem trim_quoted_append (column : String) (path : List Step) (cast : Option String)
    (rest : List Char) : trim ((quoted column path cast).toList ++ rest)
      = (quoted column path cast).toList ++ trimEnd rest := by
  have hfirst : ∀ c ∈ ((quoted column path cast).toList ++ rest).head?, isBlank c = false := by
    intro c hc
    have hhead : ((quoted column path cast).toList ++ rest).head? = some '"' := by
      simp [quoted, inQuotes]
    rw [hhead] at hc
    obtain rfl := Option.some.inj hc
    rfl
  rw [trim, Text.trimStart, Text.dropWhile_isBlank_eq_self hfirst,
    Text.trimEnd_append (endsSolid_quoted column path cast)]

/-- What is left behind a key begins with a blank, if anything is left. -/
theorem isBlank_of_head?_trimEnd {cs : List Char} (h : ∀ c ∈ cs.head?, isBlank c = true) :
    ∀ c ∈ (trimEnd cs).head?, isBlank c = true := by
  intro c hc
  obtain ⟨blanks, -, hcs⟩ := Text.exists_trimEnd_append cs
  apply h
  rw [← hcs, List.head?_append, Option.mem_def.mp hc]
  rfl

/-- A key with every part in quotes is read back: its column, path and cast,
and behind blanks the words of the operator in lower case with single spaces.
It reaches into JSON exactly when it has a path. -/
theorem parse_quoted {column : String} {path : List Step} {cast : Option String}
    {blanks operator : String} (hcolumn : IsQuotable column)
    (hpath : ∀ step ∈ path, step.text ≠ "" ∧ IsQuotable step.text)
    (hcast : ∀ type ∈ cast, type ≠ "" ∧ IsQuotable type)
    (hblanks : ∀ c ∈ blanks.toList, isBlank c = true) (hsep : blanks = "" → operator = "") :
    parse (quoted column path cast ++ blanks ++ operator)
        = ⟨column, path, cast,
            String.ofList (lowercase ([' '].intercalate (words operator.toList)))⟩
      ∧ ((parse (quoted column path cast ++ blanks ++ operator)).isJson = true ↔ path ≠ []) := by
  have hhead : ∀ c ∈ (blanks.toList ++ operator.toList).head?, isBlank c = true := by
    intro c hc
    rcases hchars : blanks.toList with - | ⟨b, bs⟩
    · have hoperator : operator = "" := hsep (String.toList_eq_nil_iff.mp hchars)
      rw [hchars, hoperator] at hc
      cases hc
    · rw [hchars] at hc
      obtain rfl := Option.some.inj hc
      exact hblanks b (hchars ▸ List.mem_cons_self)
  obtain ⟨s, hs, hscan⟩ :=
    scan_quoted hcolumn hpath hcast (isBlank_of_head?_trimEnd hhead)
  have hwords : words (trimEnd (blanks.toList ++ operator.toList)) = words operator.toList := by
    rw [Text.words_trimEnd, Text.words_blanks_append hblanks]
  have hparse : parse (quoted column path cast ++ blanks ++ operator)
      = ⟨column, path, cast,
          String.ofList (lowercase ([' '].intercalate (words operator.toList)))⟩ := by
    rw [parse, String.toList_append, String.toList_append, List.append_assoc,
      trim_quoted_append, hscan]
    simp [hs.column_eq, hs.path_eq, hs.cast_eq, operatorTextOf, hwords, Function.comp_def]
  refine ⟨hparse, ?_⟩
  rw [hparse]
  simp [isJson]

/-- Separators between quotes, and an operator of two words. -/
theorem parse_quoted_separators :
    parse "\"a b\".\"c.d\"[\"]::\"]::\"int[]\"  NOT \t Like "
        = ⟨"a b", [.member "c.d", .index "]::"], some "int[]", "not like"⟩
      ∧ (parse "\"a b\".\"c.d\"[\"]::\"]::\"int[]\"  NOT \t Like ").isJson = true := by
  have htext : "\"a b\".\"c.d\"[\"]::\"]::\"int[]\"  NOT \t Like "
      = quoted "a b" [.member "c.d", .index "]::"] (some "int[]") ++ "  " ++ "NOT \t Like " := rfl
  have hoperator : String.ofList (lowercase ([' '].intercalate (words "NOT \t Like ".toList)))
      = "not like" := by decide +kernel
  have hblanks : ∀ c ∈ "  ".toList, isBlank c = true := List.all_eq_true.mp rfl
  obtain ⟨hparse, hjson⟩ := @parse_quoted "a b" [.member "c.d", .index "]::"] (some "int[]")
    "  " "NOT \t Like " (by decide) (by decide) (by decide) hblanks (by decide)
  rw [htext]
  refine ⟨?_, hjson.mpr (List.cons_ne_nil _ _)⟩
  rw [hparse, hoperator]

end CriteriaSql.Key
