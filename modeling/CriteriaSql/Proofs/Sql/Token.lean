/-
CriteriaSql/Proofs/Sql/Token.lean

The tokens of SQL text.  Delimited identifiers and string literals are one
token each, whatever they hold; outside of them a dollar sign with digits is a
placeholder, letters, digits and underscores form words, and every other
character stands for itself.

Text is put together from pieces, and the tokens of the whole are the tokens
of the pieces only where no token goes on across the seam.  Two properties of a
piece settle that:

* `Whole a`: no quote is left open in `a`, so that a text which *stops* `a`
  (it is empty, or begins with a character that ends every token) is read from
  the start;
* `Sealed a`: `a` ends between two tokens, so that any text may follow.

Main results: a delimited text is one token (`tokens_write_append`), text
without quotes is whole (`whole_of_unquoted`), the tokens of two texts with a
separator between them are the tokens of the parts
(`Whole.tokens_glue_append`), and no character is lost (`chars_tokens`).
-/
import CriteriaSql.Condition

namespace CriteriaSql.Sql

/-! ### Tokens -/

/-- The two kinds of quoted tokens: delimited identifiers and literals. -/
inductive Quote where
  | identifier
  | literal
deriving DecidableEq, Repr

/-- The character at both ends of a quoted token. -/
def Quote.char : Quote → Char
  | identifier => '"'
  | literal => '\''

/-- The kind of quoted token that a character begins, if any. -/
def Quote.ofChar? (c : Char) : Option Quote :=
  if c = '"' then some .identifier else if c = '\'' then some .literal else none

/-- A token of SQL text; `unclosed` is a quoted token whose last quote is
missing. -/
inductive Token where
  | quoted (quote : Quote) (content : List Char)
  | unclosed (quote : Quote) (content : List Char)
  | placeholder (digits : List Char)
  | word (letters : List Char)
  | mark (c : Char)
deriving DecidableEq, Repr

/-- A character of words. -/
def isWordChar (c : Char) : Bool :=
  c.isAlphanum || c = '_'

/-- What the characters that are being read belong to.  `closing` is a quoted
token after a quote that ends it, unless another quote follows. -/
inductive Reading where
  | gap
  | word (letters : List Char)
  | placeholder (digits : List Char)
  | inside (quote : Quote) (content : List Char)
  | closing (quote : Quote) (content : List Char)
deriving DecidableEq, Repr

namespace Reading

/-- The token that ends here. -/
def finish : Reading → List Token
  | gap => []
  | word letters => [.word letters]
  | placeholder digits => if digits.isEmpty then [.mark '$'] else [.placeholder digits]
  | inside quote content => [.unclosed quote content]
  | closing quote content => [.quoted quote content]

/-- What is being read with one more character, unless the token ends before
it. -/
def extend? : Reading → Char → Option Reading
  | gap, _ => none
  | word letters, c => if isWordChar c then some (word (letters ++ [c])) else none
  | placeholder digits, c => if c.isDigit then some (placeholder (digits ++ [c])) else none
  | inside quote content, c =>
    some (if c = quote.char then closing quote content else inside quote (content ++ [c]))
  | closing quote content, c =>
    if c = quote.char then some (inside quote (content ++ [c])) else none

/-- What a character between two tokens begins. -/
def start (c : Char) : Reading :=
  match Quote.ofChar? c with
  | some quote => inside quote []
  | none => if c = '$' then placeholder [] else if isWordChar c then word [c] else gap

/-- The token that is made of a single character between two tokens. -/
def single (c : Char) : List Token :=
  if start c = gap then [.mark c] else []

end Reading

/-- The tokens that end in the text, when `r` is being read. -/
def tokensFrom (r : Reading) : List Char → List Token
  | [] => r.finish
  | c :: cs =>
    match r.extend? c with
    | some r' => tokensFrom r' cs
    | none => r.finish ++ Reading.single c ++ tokensFrom (.start c) cs

/-- The tokens of a text. -/
def tokens (text : String) : List Token :=
  tokensFrom .gap text.toList

/-! ### Placeholders -/

/-- The number of a placeholder. -/
def Token.number? : Token → Option Nat
  | .placeholder digits => some (Nat.ofDigitChars 10 digits 0)
  | _ => none

/-- The numbers of the placeholders of a text, from left to right. -/
def placeholders (text : String) : List Nat :=
  (tokens text).filterMap Token.number?

/-! ### Seams -/

/-- Every token before the text ends where the text begins. -/
def Stops (text : String) : Prop :=
  ∀ c ∈ text.toList.head?, isWordChar c = false ∧ Quote.ofChar? c = none

instance (text : String) : Decidable (Stops text) :=
  match h : text.toList.head? with
  | none => isTrue fun c hc => nomatch h.symm.trans hc
  | some c => decidable_of_iff (isWordChar c = false ∧ Quote.ofChar? c = none) (by simp [Stops, h])

/-- No quote is left open. -/
def Whole (a : String) : Prop :=
  ∀ rest, Stops rest → tokens (a ++ rest) = tokens a ++ tokens rest

/-- The last token has ended. -/
def Sealed (a : String) : Prop :=
  ∀ rest, tokens (a ++ rest) = tokens a ++ tokens rest

theorem Sealed.whole {a : String} (h : Sealed a) : Whole a :=
  fun rest _ => h rest

theorem Stops.append {a b : String} (ha : Stops a) (hb : Stops b) : Stops (a ++ b) := by
  intro c hc
  rcases e : a.toList with - | ⟨d, ds⟩
  · rw [String.toList_append, e, List.nil_append] at hc
    exact hb c hc
  · rw [String.toList_append, e, List.cons_append, List.head?_cons] at hc
    exact ha c (by rw [e, List.head?_cons]; exact hc)

theorem Whole.tokens_append {a b : String} (ha : Whole a) (hb : Stops b) :
    tokens (a ++ b) = tokens a ++ tokens b :=
  ha b hb

theorem Whole.append {a b : String} (ha : Whole a) (hb : Whole b) (hs : Stops b) :
    Whole (a ++ b) := by
  intro rest hrest
  rw [String.append_assoc, ha _ (hs.append hrest), hb rest hrest, ha b hs, List.append_assoc]

theorem Sealed.append_whole {a b : String} (ha : Sealed a) (hb : Whole b) : Whole (a ++ b) := by
  intro rest hrest
  rw [String.append_assoc, ha, hb rest hrest, ha b, List.append_assoc]

/-! ### Reading across a seam -/

/-- A quoted token has begun and not ended. -/
def Reading.isOpen : Reading → Bool
  | inside _ _ => true
  | _ => false

theorem isDigit_eq_false_of_isWordChar {c : Char} (h : isWordChar c = false) :
    c.isDigit = false := by
  simp only [isWordChar, Char.isAlphanum, Bool.or_eq_false_iff] at h
  exact h.1.2

theorem Quote.ofChar?_char (q : Quote) : ofChar? q.char = some q := by
  cases q <;> rfl

theorem Reading.extend?_eq_none {r : Reading} (hr : r.isOpen = false) {c : Char}
    (hw : isWordChar c = false) (hq : Quote.ofChar? c = none) : r.extend? c = none := by
  cases r with
  | gap => rfl
  | word letters => simp [extend?, hw]
  | placeholder digits => simp [extend?, isDigit_eq_false_of_isWordChar hw]
  | inside quote content => cases hr
  | closing quote content =>
    -- only the same quote could go on, and `c` is none
    have hc : c ≠ quote.char := by
      rintro rfl
      rw [Quote.ofChar?_char] at hq
      cases hq
    simp [extend?, hc]

theorem tokensFrom_cons_of_extend {r r' : Reading} {c : Char} (h : r.extend? c = some r')
    (cs : List Char) : tokensFrom r (c :: cs) = tokensFrom r' cs := by
  rw [tokensFrom, h]

theorem tokensFrom_cons_of_end {r : Reading} {c : Char} (h : r.extend? c = none)
    (cs : List Char) : tokensFrom r (c :: cs) = r.finish ++ tokensFrom .gap (c :: cs) := by
  rw [tokensFrom, h, tokensFrom, Reading.extend?]
  exact List.append_assoc r.finish (Reading.single c) (tokensFrom (.start c) cs)

/-- A text that stops the token that is being read is read from the start. -/
theorem tokensFrom_of_stops {r : Reading} (hr : r.isOpen = false) {rest : String}
    (h : Stops rest) : tokensFrom r rest.toList = r.finish ++ tokens rest := by
  unfold tokens
  rcases e : rest.toList with - | ⟨c, cs⟩
  · -- at the end of the text there is nothing to be read from the start
    rw [tokensFrom, tokensFrom, Reading.finish, List.append_nil]
  · obtain ⟨hw, hq⟩ := h c (by rw [e]; rfl)
    exact tokensFrom_cons_of_end (Reading.extend?_eq_none hr hw hq) cs

/-- A character that is no quote opens no quoted token. -/
theorem Reading.isOpen_start {c : Char} (h : Quote.ofChar? c = none) :
    (start c).isOpen = false := by
  simp only [start, h]
  split
  · rfl
  · split <;> rfl

theorem Reading.isOpen_extend? {r r' : Reading} (hr : r.isOpen = false) {c : Char}
    (hq : Quote.ofChar? c = none) (h : r.extend? c = some r') : r'.isOpen = false := by
  cases r with
  | gap => cases h
  | word letters =>
    obtain ⟨-, h⟩ := Option.ite_none_right_eq_some.mp h
    obtain rfl := Option.some.inj h
    rfl
  | placeholder digits =>
    obtain ⟨-, h⟩ := Option.ite_none_right_eq_some.mp h
    obtain rfl := Option.some.inj h
    rfl
  | inside quote content => cases hr
  | closing quote content =>
    obtain ⟨rfl, -⟩ := Option.ite_none_right_eq_some.mp h
    rw [Quote.ofChar?_char] at hq
    cases hq

/-! ### Text without quotes -/

/-- No character is a quote. -/
def Unquoted (text : String) : Prop :=
  ∀ c ∈ text.toList, Quote.ofChar? c = none

instance (text : String) : Decidable (Unquoted text) :=
  List.decidableBAll (fun c => Quote.ofChar? c = none) text.toList

theorem tokensFrom_append_of_unquoted {r : Reading} (hr : r.isOpen = false) {cs : List Char}
    (hcs : ∀ c ∈ cs, Quote.ofChar? c = none) {rest : String} (h : Stops rest) :
    tokensFrom r (cs ++ rest.toList) = tokensFrom r cs ++ tokens rest := by
  -- what is being read may change at every character, but no quote is ever open
  induction cs generalizing r with
  | nil => exact tokensFrom_of_stops hr h
  | cons c cs ih =>
    have hq : Quote.ofChar? c = none := hcs c List.mem_cons_self
    have hcs' : ∀ d ∈ cs, Quote.ofChar? d = none := fun d hd => hcs d (List.mem_cons_of_mem c hd)
    rw [List.cons_append, tokensFrom, tokensFrom]
    rcases e : r.extend? c with - | r'
    · simp only [ih (Reading.isOpen_start hq) hcs', List.append_assoc]
    · exact ih (Reading.isOpen_extend? hr hq e) hcs'

theorem whole_of_unquoted {a : String} (h : Unquoted a) : Whole a := by
  intro rest hrest
  rw [tokens, String.toList_append]
  exact tokensFrom_append_of_unquoted rfl h hrest

/-! ### Quoted tokens -/

open Text (Delimited.write Delimited.doubled)

/-- A text as a quoted token. -/
def Quote.write (q : Quote) (text : String) : String :=
  String.ofList (Delimited.write q.char text.toList)

/-- A quote that ends a token is the last of it, since no other quote follows. -/
theorem tokensFrom_closing {q : Quote} (content : List Char) {rest : String}
    (h : rest.toList.head? ≠ some q.char) :
    tokensFrom (.closing q content) rest.toList = .quoted q content :: tokens rest := by
  unfold tokens
  rcases e : rest.toList with - | ⟨c, cs⟩
  · rfl
  · have hc : c ≠ q.char := by
      rintro rfl
      exact h (by rw [e, List.head?_cons])
    have hend : (Reading.closing q content).extend? c = none := by
      simp [Reading.extend?, hc]
    exact tokensFrom_cons_of_end hend cs

theorem tokensFrom_inside (q : Quote) (content cs : List Char) {rest : String}
    (h : rest.toList.head? ≠ some q.char) :
    tokensFrom (.inside q content) (Delimited.doubled q.char cs ++ q.char :: rest.toList)
      = .quoted q (content ++ cs) :: tokens rest := by
  induction cs generalizing content with
  | nil =>
    have hend : (Reading.inside q content).extend? q.char = some (.closing q content) := by
      simp [Reading.extend?]
    rw [Delimited.doubled, List.nil_append, tokensFrom_cons_of_extend hend,
      tokensFrom_closing content h, List.append_nil]
  | cons c cs ih =>
    by_cases hc : c = q.char
    · -- the quote is written twice: the token ends and goes on
      subst hc
      have hend : (Reading.inside q content).extend? q.char = some (.closing q content) := by
        simp [Reading.extend?]
      have hon : (Reading.closing q content).extend? q.char
          = some (.inside q (content ++ [q.char])) := by
        simp [Reading.extend?]
      rw [Delimited.doubled, if_pos rfl, List.cons_append, List.cons_append,
        tokensFrom_cons_of_extend hend, tokensFrom_cons_of_extend hon, ih, List.append_assoc]
      rfl
    · have hon : (Reading.inside q content).extend? c = some (.inside q (content ++ [c])) := by
        simp [Reading.extend?, hc]
      rw [Delimited.doubled, if_neg hc, List.cons_append, tokensFrom_cons_of_extend hon, ih,
        List.append_assoc]
      rfl

/-- A quoted text is one token, whatever it holds and whatever follows, unless
that is another quote. -/
theorem tokens_write_append (q : Quote) (text : String) {rest : String}
    (h : rest.toList.head? ≠ some q.char) :
    tokens (q.write text ++ rest) = .quoted q text.toList :: tokens rest := by
  have hstart : Reading.start q.char = .inside q [] := by
    rw [Reading.start, Quote.ofChar?_char]
  have hlist : (q.write text ++ rest).toList
      = q.char :: (Delimited.doubled q.char text.toList ++ q.char :: rest.toList) := by
    simp [Quote.write, Delimited.write]
  rw [tokens, hlist, tokensFrom, Reading.extend?, Reading.finish, Reading.single, hstart]
  exact tokensFrom_inside q [] text.toList h

theorem Stops.head?_ne {rest : String} (h : Stops rest) (q : Quote) :
    rest.toList.head? ≠ some q.char := by
  intro hq
  have hnone := (h q.char hq).2
  rw [Quote.ofChar?_char] at hnone
  cases hnone

theorem stops_empty : Stops "" := by
  intro c hc
  cases hc

@[simp] theorem tokens_write (q : Quote) (text : String) :
    tokens (q.write text) = [.quoted q text.toList] := by
  have := tokens_write_append q text (stops_empty.head?_ne q)
  rwa [String.append_empty] at this

theorem whole_write (q : Quote) (text : String) : Whole (q.write text) := by
  intro rest hrest
  rw [tokens_write, tokens_write_append q text (hrest.head?_ne q), List.singleton_append]

/-! ### Placeholders that are written out -/

/-- Digits after a dollar sign are one placeholder. -/
theorem tokensFrom_placeholder (digits : List Char) {cs : List Char} (hne : digits ++ cs ≠ [])
    (h : ∀ c ∈ cs, c.isDigit = true) :
    tokensFrom (.placeholder digits) cs = [.placeholder (digits ++ cs)] := by
  induction cs generalizing digits with
  | nil =>
    rw [List.append_nil] at hne ⊢
    simp [tokensFrom, Reading.finish, hne]
  | cons c cs ih =>
    have hon : (Reading.placeholder digits).extend? c = some (.placeholder (digits ++ [c])) := by
      simp [Reading.extend?, h c List.mem_cons_self]
    rw [tokensFrom_cons_of_extend hon, ih _ (by simp) fun d hd => h d (List.mem_cons_of_mem c hd),
      List.append_assoc]
    rfl

theorem toList_placeholder (n : Nat) : (placeholder n).toList = '$' :: Nat.toDigits 10 n := by
  simp [placeholder]

theorem tokens_placeholder (n : Nat) :
    tokens (placeholder n) = [.placeholder (Nat.toDigits 10 n)] := by
  rw [tokens, toList_placeholder]
  show tokensFrom (.placeholder []) (Nat.toDigits 10 n) = _
  exact tokensFrom_placeholder [] Nat.toDigits_ne_nil
    fun c hc => Nat.isDigit_of_mem_toDigits (by decide) (by decide) hc

theorem ofChar?_eq_none_of_isDigit {c : Char} (h : c.isDigit = true) : Quote.ofChar? c = none := by
  have h₁ : c ≠ '"' := by rintro rfl; cases h
  have h₂ : c ≠ '\'' := by rintro rfl; cases h
  rw [Quote.ofChar?, if_neg h₁, if_neg h₂]

theorem whole_placeholder (n : Nat) : Whole (placeholder n) := by
  apply whole_of_unquoted
  intro c hc
  rw [toList_placeholder] at hc
  rcases List.mem_cons.mp hc with rfl | hc
  · rfl
  · exact ofChar?_eq_none_of_isDigit (Nat.isDigit_of_mem_toDigits (by decide) (by decide) hc)

/-! ### Text between two pieces -/

/-- A character that is a token of its own. -/
def isMark (c : Char) : Bool :=
  Reading.start c = .gap

/-- Text that holds no quote and no dollar sign. -/
def isBare (g : String) : Bool :=
  g.toList.all fun c => Quote.ofChar? c = none && c ≠ '$'

/-- Bare text that ends with a token of one character. -/
def isLead (g : String) : Bool :=
  isBare g && g.toList.getLast?.any isMark

/-- Text that may stand between any two pieces: it is bare, and begins and ends
with a token of one character. -/
def isGlue (g : String) : Bool :=
  isLead g && g.toList.head?.any isMark

theorem isMark_iff {c : Char} :
    isMark c = true ↔ Quote.ofChar? c = none ∧ c ≠ '$' ∧ isWordChar c = false := by
  rw [isMark, decide_eq_true_eq, Reading.start]
  rcases Quote.ofChar? c with - | q
  · by_cases hd : c = '$'
    · simp [hd]
    · by_cases hw : isWordChar c = true <;> simp [hd, hw]
  · simp

theorem tokens_mark_append {c : Char} (h : isMark c = true) (rest : String) :
    tokens (String.singleton c ++ rest) = .mark c :: tokens rest := by
  have hc : Reading.start c = .gap := of_decide_eq_true h
  rw [tokens, String.toList_append, String.toList_singleton, List.singleton_append, tokensFrom,
    Reading.extend?, Reading.single, if_pos hc, hc]
  rfl

theorem stops_mark_append {c : Char} (h : isMark c = true) (rest : String) :
    Stops (String.singleton c ++ rest) := by
  intro d hd
  obtain ⟨hq, -, hw⟩ := isMark_iff.mp h
  rw [String.toList_append, String.toList_singleton, List.singleton_append, List.head?_cons,
    Option.mem_some_iff] at hd
  subst hd
  exact ⟨hw, hq⟩

/-- A text without open quotes is sealed by a mark. -/
theorem Whole.sealed_mark {a : String} (ha : Whole a) {c : Char} (h : isMark c = true) :
    Sealed (a ++ String.singleton c) := by
  intro rest
  have hc : tokens (String.singleton c) = [.mark c] := by
    have := tokens_mark_append h ""
    rwa [String.append_empty] at this
  have hstop : Stops (String.singleton c) := by
    have := stops_mark_append h ""
    rwa [String.append_empty] at this
  rw [String.append_assoc, ha _ (stops_mark_append h rest), tokens_mark_append h,
    ha _ hstop, hc, List.append_assoc, List.singleton_append]

theorem unquoted_of_isBare {g : String} (hg : isBare g = true) : Unquoted g := by
  intro c hc
  simp only [isBare, List.all_eq_true, Bool.and_eq_true, decide_eq_true_eq] at hg
  exact (hg c hc).1

theorem no_dollar_of_isBare {g : String} (hg : isBare g = true) : '$' ∉ g.toList := by
  intro hd
  simp only [isBare, List.all_eq_true, Bool.and_eq_true, decide_eq_true_eq] at hg
  exact (hg '$' hd).2 rfl

theorem isBare_of_isLead {g : String} (hg : isLead g = true) : isBare g = true := by
  rw [isLead, Bool.and_eq_true] at hg
  exact hg.1

theorem sealed_of_isLead {g : String} (hg : isLead g = true) : Sealed g := by
  have hunq : Unquoted g := unquoted_of_isBare (isBare_of_isLead hg)
  rw [isLead, Bool.and_eq_true] at hg
  obtain ⟨-, hlast⟩ := hg
  rcases e : g.toList.getLast? with - | c
  · rw [e] at hlast
    cases hlast
  · rw [e] at hlast
    obtain ⟨cs, hcs⟩ := List.getLast?_eq_some_iff.mp e
    -- the text is its last character after a text without quotes
    have hsplit : g = String.ofList cs ++ String.singleton c := by
      rw [← String.toList_inj, String.toList_append, String.toList_ofList,
        String.toList_singleton, hcs]
    have hwhole : Whole (String.ofList cs) := by
      apply whole_of_unquoted
      intro d hd
      rw [String.toList_ofList] at hd
      exact hunq d (by rw [hcs]; exact List.mem_append_left [c] hd)
    rw [hsplit]
    exact hwhole.sealed_mark hlast

section Glue

variable {g : String} (hg : isGlue g = true)
include hg

theorem isLead_of_isGlue : isLead g = true := by
  rw [isGlue, Bool.and_eq_true] at hg
  exact hg.1

theorem isBare_of_isGlue : isBare g = true :=
  isBare_of_isLead (isLead_of_isGlue hg)

theorem sealed_of_isGlue : Sealed g :=
  sealed_of_isLead (isLead_of_isGlue hg)

theorem exists_head_of_isGlue : ∃ c cs, g.toList = c :: cs ∧ isMark c = true := by
  rw [isGlue, Bool.and_eq_true] at hg
  obtain ⟨-, hhead⟩ := hg
  rcases e : g.toList with - | ⟨c, cs⟩
  · rw [e] at hhead
    cases hhead
  · rw [e] at hhead
    exact ⟨c, cs, rfl, hhead⟩

theorem stops_glue_append (rest : String) : Stops (g ++ rest) := by
  obtain ⟨c, cs, hcs, hmark⟩ := exists_head_of_isGlue hg
  obtain ⟨hq, -, hw⟩ := isMark_iff.mp hmark
  intro d hd
  rw [String.toList_append, hcs, List.cons_append, List.head?_cons, Option.mem_some_iff] at hd
  subst hd
  exact ⟨hw, hq⟩

theorem stops_of_isGlue : Stops g := by
  have := stops_glue_append hg ""
  rwa [String.append_empty] at this

theorem Whole.tokens_append_glue {a : String} (ha : Whole a) :
    tokens (a ++ g) = tokens a ++ tokens g :=
  ha g (stops_of_isGlue hg)

theorem Whole.append_glue {a : String} (ha : Whole a) : Sealed (a ++ g) := by
  intro rest
  rw [String.append_assoc, ha _ (stops_glue_append hg rest), sealed_of_isGlue hg,
    ha.tokens_append_glue hg, List.append_assoc]

/-- Two texts with glue between them. -/
theorem Whole.glue_append {a b : String} (ha : Whole a) (hb : Whole b) : Whole (a ++ g ++ b) :=
  (ha.append_glue hg).append_whole hb

theorem Whole.tokens_glue_append {a : String} (ha : Whole a) (b : String) :
    tokens (a ++ g ++ b) = tokens a ++ tokens g ++ tokens b := by
  rw [ha.append_glue hg, ha.tokens_append_glue hg]

end Glue

/-! ### Nothing is lost -/

/-- The text of a token. -/
def Token.chars : Token → List Char
  | quoted quote content => Delimited.write quote.char content
  | unclosed quote content => quote.char :: Delimited.doubled quote.char content
  | placeholder digits => '$' :: digits
  | word letters => letters
  | mark c => [c]

/-- The characters that have been read of a token. -/
def Reading.chars : Reading → List Char
  | gap => []
  | word letters => letters
  | placeholder digits => '$' :: digits
  | inside quote content => quote.char :: Delimited.doubled quote.char content
  | closing quote content => Delimited.write quote.char content

theorem doubled_append (quote : Char) (cs ds : List Char) :
    Delimited.doubled quote (cs ++ ds)
      = Delimited.doubled quote cs ++ Delimited.doubled quote ds := by
  induction cs with
  | nil => rfl
  | cons c cs ih =>
    by_cases hc : c = quote <;> simp [Delimited.doubled, hc, ih]

theorem Reading.chars_finish (r : Reading) : r.finish.flatMap Token.chars = r.chars := by
  cases r with
  | gap => rfl
  | word letters => simp [finish, chars, Token.chars]
  | placeholder digits =>
    cases digits with
    | nil => rfl
    | cons d ds => simp [finish, chars, Token.chars]
  | inside quote content => simp [finish, chars, Token.chars]
  | closing quote content => simp [finish, chars, Token.chars]

theorem Reading.chars_extend? {r r' : Reading} {c : Char} (h : r.extend? c = some r') :
    r'.chars = r.chars ++ [c] := by
  cases r with
  | gap => cases h
  | word letters =>
    obtain ⟨-, h⟩ := Option.ite_none_right_eq_some.mp h
    obtain rfl := Option.some.inj h
    rfl
  | placeholder digits =>
    obtain ⟨-, h⟩ := Option.ite_none_right_eq_some.mp h
    obtain rfl := Option.some.inj h
    rfl
  | inside quote content =>
    obtain rfl := Option.some.inj h
    by_cases hc : c = quote.char
    · simp [chars, hc, Delimited.write]
    · simp [chars, hc, Delimited.doubled, doubled_append]
  | closing quote content =>
    obtain ⟨rfl, h⟩ := Option.ite_none_right_eq_some.mp h
    obtain rfl := Option.some.inj h
    simp [chars, Delimited.write, Delimited.doubled, doubled_append]

theorem Reading.chars_start (c : Char) :
    (single c).flatMap Token.chars ++ (start c).chars = [c] := by
  by_cases hm : start c = .gap
  · simp [single, hm, chars, Token.chars]
  · -- the character begins a token, and is all that has been read of it
    rw [single, if_neg hm, List.flatMap_nil, List.nil_append]
    rw [start] at hm ⊢
    rcases hq : Quote.ofChar? c with - | q
    · simp only [hq] at hm ⊢
      split
      · next hd => rw [hd]; rfl
      · next hd =>
        rw [if_neg hd] at hm
        split
        · rfl
        · next hw => simp [hw] at hm
    · -- a quote is the character of its kind
      have hc : q.char = c := by
        unfold Quote.ofChar? at hq
        split at hq
        · next h => obtain rfl := Option.some.inj hq; exact h.symm
        · obtain ⟨h, hq⟩ := Option.ite_none_right_eq_some.mp hq
          obtain rfl := Option.some.inj hq
          exact h.symm
      simp [chars, Delimited.doubled, hc]

theorem chars_tokensFrom (r : Reading) (cs : List Char) :
    (tokensFrom r cs).flatMap Token.chars = r.chars ++ cs := by
  induction cs generalizing r with
  | nil => rw [tokensFrom, Reading.chars_finish, List.append_nil]
  | cons c cs ih =>
    rcases e : r.extend? c with - | r'
    · -- a token ends before `c`, which is a token itself or begins the next one
      rw [tokensFrom, e]
      simp only [List.flatMap_append, Reading.chars_finish, ih, List.append_assoc]
      rw [← List.append_assoc (List.flatMap _ _), Reading.chars_start, List.singleton_append]
    · rw [tokensFrom_cons_of_extend e, ih, Reading.chars_extend? e, List.append_assoc]
      rfl

/-- The tokens are the whole text. -/
theorem chars_tokens (text : String) : (tokens text).flatMap Token.chars = text.toList :=
  chars_tokensFrom .gap text.toList

/-- The characters of a token are characters of the text. -/
theorem mem_of_mem_tokens {text : String} {t : Token} (ht : t ∈ tokens text) {c : Char}
    (hc : c ∈ t.chars) : c ∈ text.toList := by
  rw [← chars_tokens text]
  exact List.mem_flatMap.mpr ⟨t, ht, hc⟩

end CriteriaSql.Sql
