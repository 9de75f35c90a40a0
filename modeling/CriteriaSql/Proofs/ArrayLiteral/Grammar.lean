/-
CriteriaSql/Proofs/ArrayLiteral/Grammar.lean

The grammar of array literals.

    literal := '{' gap '}' | '{' element (',' element)* '}'
    element := gap literal gap | gap quoted gap | word

A *dialect* says what a gap and a word are.  In the standard dialect gaps are
blanks, and a word is text without commas, braces, quotes and backslashes that
is not blank.  The reader follows a dialect of its own: it knows no gaps, and
takes for a word whatever stands up to the next comma or closing brace, if it
does not begin with an opening brace or a quote.  The *narrow* dialect is what
both have in common: no gaps, and the words of the standard.

Main result: the reader accepts exactly the literals of its dialect
(`parse?_eq_some_iff`).
-/
import CriteriaSql.Proofs.ArrayLiteral.RoundTrip

namespace CriteriaSql.ArrayLiteral

open Text (isBlank trim)

/-! ### The grammar -/

/-- The inside of a quoted element as it is written, and the text that it
stands for: a backslash stands for the character behind it. -/
inductive Escaped : List Char → List Char → Prop
  | nil : Escaped [] []
  | plain {c : Char} {cs text : List Char} (hquote : c ≠ '"') (hslash : c ≠ '\\')
      (h : Escaped cs text) : Escaped (c :: cs) (c :: text)
  | escape (c : Char) {cs text : List Char} (h : Escaped cs text) :
      Escaped ('\\' :: c :: cs) (c :: text)

/-- What a gap may be, beside a quoted element or a list and between the braces
of an empty list, and what an unquoted element may be. -/
structure Dialect where
  gap : List Char → Prop
  word : List Char → Prop

mutual

/-- A list in braces and its items. -/
inductive Literal (d : Dialect) : List Char → List Json → Prop
  | empty {gap : List Char} (hgap : d.gap gap) : Literal d ('\x7b' :: (gap ++ ['\x7d'])) []
  | items {cs : List Char} {vs : List Json} (hne : cs ≠ []) (h : Elements d cs vs) :
      Literal d ('\x7b' :: (cs ++ ['\x7d'])) vs

/-- One or more elements with commas between them, and their values. -/
inductive Elements (d : Dialect) : List Char → List Json → Prop
  | last {cs : List Char} {v : Json} (h : Element d cs v) : Elements d cs [v]
  | more {cs ds : List Char} {v : Json} {vs : List Json} (h : Element d cs v)
      (hs : Elements d ds vs) : Elements d (cs ++ ',' :: ds) (v :: vs)

/-- An element and its value. -/
inductive Element (d : Dialect) : List Char → Json → Prop
  | list {before cs after : List Char} {vs : List Json} (hbefore : d.gap before)
      (h : Literal d cs vs) (hafter : d.gap after) :
      Element d (before ++ (cs ++ after)) (.arr vs)
  | quoted {before cs after text : List Char} (hbefore : d.gap before) (h : Escaped cs text)
      (hafter : d.gap after) :
      Element d (before ++ ('"' :: (cs ++ '"' :: after))) (.str (String.ofList text))
  | word {cs : List Char} (h : d.word cs) : Element d cs (bareValue cs)

end

/-! ### Dialects -/

/-- Text that is not blank and holds no comma, brace, quote or backslash. -/
structure IsWord (cs : List Char) : Prop where
  nonblank : trim cs ≠ []
  plain : ∀ c ∈ cs, c ≠ ',' ∧ c ≠ '\x7b' ∧ c ≠ '\x7d' ∧ c ≠ '"' ∧ c ≠ '\\'

/-- Text without commas and closing braces, empty or not, that does not begin
with an opening brace or a quote. -/
structure IsRun (cs : List Char) : Prop where
  bare : ∀ c ∈ cs, isBare c = true
  head : ∀ c ∈ cs.head?, c ≠ '\x7b' ∧ c ≠ '"'

namespace Dialect

/-- The standard dialect: gaps are blanks. -/
def standard : Dialect where
  gap cs := ∀ c ∈ cs, isBlank c = true
  word := IsWord

/-- The dialect of the reader. -/
def reader : Dialect where
  gap cs := cs = []
  word := IsRun

/-- What the standard dialect and that of the reader have in common. -/
def narrow : Dialect where
  gap cs := cs = []
  word := IsWord

end Dialect

theorem Elements.ne_nil {d : Dialect} {cs : List Char} {vs : List Json} (h : Elements d cs vs) :
    vs ≠ [] := by
  cases h <;> exact List.cons_ne_nil _ _

theorem IsWord.isBare {cs : List Char} (h : IsWord cs) : ∀ c ∈ cs, isBare c = true := by
  intro c hc
  obtain ⟨hcomma, -, hbrace, -⟩ := h.plain c hc
  simp [ArrayLiteral.isBare, hcomma, hbrace]

theorem IsWord.isRun {cs : List Char} (h : IsWord cs) : IsRun cs := by
  refine ⟨h.isBare, fun c hc => ?_⟩
  obtain ⟨-, hbrace, -, hquote, -⟩ := h.plain c (List.mem_of_head? hc)
  exact ⟨hbrace, hquote⟩

/-! ### Wider dialects -/

/-- The gaps and words of a dialect are gaps and words of another one. -/
structure Dialect.Within (d d' : Dialect) : Prop where
  gap : ∀ cs, d.gap cs → d'.gap cs
  word : ∀ cs, d.word cs → d'.word cs

theorem Dialect.narrow_within_standard : narrow.Within standard := by
  refine ⟨?_, fun _ h => h⟩
  rintro _ rfl c hc
  cases hc

theorem Dialect.narrow_within_reader : narrow.Within reader :=
  ⟨fun _ h => h, fun _ h => h.isRun⟩

mutual

theorem Literal.widen {d d' : Dialect} (hd : d.Within d') {cs : List Char} {vs : List Json}
    (h : Literal d cs vs) : Literal d' cs vs := by
  match h with
  | .empty h => exact .empty (hd.gap _ h)
  | .items hne h => exact .items hne (h.widen hd)

theorem Elements.widen {d d' : Dialect} (hd : d.Within d') {cs : List Char} {vs : List Json}
    (h : Elements d cs vs) : Elements d' cs vs := by
  match h with
  | .last h => exact .last (h.widen hd)
  | .more h hs => exact .more (h.widen hd) (hs.widen hd)

theorem Element.widen {d d' : Dialect} (hd : d.Within d') {cs : List Char} {v : Json}
    (h : Element d cs v) : Element d' cs v := by
  match h with
  | .list hbefore h hafter => exact .list (hd.gap _ hbefore) (h.widen hd) (hd.gap _ hafter)
  | .quoted hbefore h hafter => exact .quoted (hd.gap _ hbefore) h (hd.gap _ hafter)
  | .word h => exact .word (hd.word _ h)

end

/-! ### Quoted elements -/

theorem readQuoted_of_escaped {cs text : List Char} (h : Escaped cs text) (r : List Char) :
    readQuoted (cs ++ '"' :: r) = some (text, r) := by
  induction h with
  | nil => rfl
  | plain hquote hslash _ ih =>
    rw [List.cons_append, readQuoted, if_neg hslash, ih]
    · rfl
    · exact hquote
    · exact fun _ _ h => absurd h hslash
  | escape c _ ih =>
    rw [List.cons_append, List.cons_append, readQuoted, ih]
    rfl

theorem escaped_of_readQuoted {cs text r : List Char} (h : readQuoted cs = some (text, r)) :
    ∃ inside, Escaped inside text ∧ cs = inside ++ '"' :: r := by
  fun_induction readQuoted cs generalizing text with
  | case1 => cases h
  | case2 cs =>
    obtain ⟨rfl, rfl⟩ := Prod.mk.inj (Option.some.inj h)
    exact ⟨[], .nil, rfl⟩
  | case3 c cs ih =>
    obtain ⟨⟨text, r⟩, hread, h⟩ := Option.map_eq_some_iff.mp h
    obtain ⟨rfl, rfl⟩ := Prod.mk.inj h
    obtain ⟨inside, hinside, rfl⟩ := ih hread
    exact ⟨'\\' :: c :: inside, .escape c hinside, rfl⟩
  | case4 => cases h
  | case5 c cs hquote _ hslash ih =>
    obtain ⟨⟨text, r⟩, hread, h⟩ := Option.map_eq_some_iff.mp h
    obtain ⟨rfl, rfl⟩ := Prod.mk.inj h
    obtain ⟨inside, hinside, rfl⟩ := ih hread
    exact ⟨c :: inside, .plain hquote hslash hinside, rfl⟩

/-- A quoted text is written with its characters and backslashes. -/
theorem Escaped.mem {cs text : List Char} (h : Escaped cs text) {c : Char} (hc : c ∈ cs)
    (hslash : c ≠ '\\') : c ∈ text := by
  induction h with
  | nil => cases hc
  | plain _ _ _ ih =>
    rcases List.mem_cons.mp hc with rfl | hc
    · exact List.mem_cons_self
    · exact List.mem_cons_of_mem _ (ih hc)
  | escape d _ ih =>
    rcases List.mem_cons.mp hc with rfl | hc
    · exact absurd rfl hslash
    · rcases List.mem_cons.mp hc with rfl | hc
      · exact List.mem_cons_self
      · exact List.mem_cons_of_mem _ (ih hc)

theorem Escaped.length_le {cs text : List Char} (h : Escaped cs text) :
    text.length ≤ cs.length := by
  induction h with
  | nil => exact Nat.le_refl 0
  | plain _ _ _ ih => exact Nat.succ_le_succ ih
  | escape _ _ ih => exact Nat.le_succ_of_le (Nat.succ_le_succ ih)

/-- What stands between the quotes is settled by its beginning. -/
theorem Escaped.unique {cs ds text text' r r' : List Char} (h : Escaped cs text)
    (h' : Escaped ds text') (e : cs ++ '"' :: r = ds ++ '"' :: r') :
    cs = ds ∧ text = text' ∧ r = r' := by
  have hread := readQuoted_of_escaped h' r'
  rw [← e, readQuoted_of_escaped h r] at hread
  obtain ⟨rfl, rfl⟩ := Prod.mk.inj (Option.some.inj hread)
  exact ⟨List.append_cancel_right e, rfl, rfl⟩

/-! ### What the reader accepts -/

/-- The reader takes a word up to the comma or brace that ends it. -/
theorem readItem_run {cs : List Char} (h : IsRun cs) {c : Char} (hc : isBare c = false)
    (r : List Char) : readItem (cs ++ c :: r) = some (bareValue cs, c :: r) := by
  have hends : ∀ d ∈ (c :: r).head?, isBare d = false := by
    rintro d hd
    obtain rfl := Option.some.inj hd
    exact hc
  have htake := takeWhile_append_of_ends h.bare hends
  have hdrop := dropWhile_append_of_ends h.bare hends
  -- neither a word nor what ends it begins as a list or a quoted element does
  have hhead : ∀ d ∈ (cs ++ c :: r).head?, d ≠ '\x7b' ∧ d ≠ '"' := by
    intro d hd
    rcases cs with - | ⟨d', cs⟩
    · obtain rfl := Option.some.inj hd
      constructor <;> rintro rfl <;> cases hc
    · exact h.head d hd
  generalize cs ++ c :: r = text at htake hdrop hhead
  rcases text with - | ⟨d, text⟩
  · rw [List.dropWhile_nil] at hdrop
    cases hdrop
  · obtain ⟨hbrace, hquote⟩ := hhead d rfl
    rw [readItem, htake, hdrop]
    · exact fun _ h _ => hbrace h
    · exact hbrace
    · exact hquote

/-- No element of the reader begins with the brace that closes a list. -/
theorem Element.head_ne {cs : List Char} {v : Json} (h : Element .reader cs v) :
    ∀ c ∈ cs.head?, c ≠ '\x7d' := by
  intro c hc
  cases h with
  | list hbefore h _ =>
    obtain rfl : _ = [] := hbefore
    cases h <;>
    · obtain rfl := Option.some.inj hc
      decide
  | quoted hbefore _ _ =>
    obtain rfl : _ = [] := hbefore
    obtain rfl := Option.some.inj hc
    decide
  | word h =>
    rintro rfl
    exact absurd (h.bare _ (List.mem_of_head? hc)) (by decide)

theorem Elements.exists_eq_cons {cs : List Char} {vs : List Json} (h : Elements .reader cs vs)
    (hne : cs ≠ []) : ∃ c t, cs = c :: t ∧ c ≠ '\x7d' := by
  cases h with
  | last h =>
    obtain ⟨c, t, rfl⟩ := List.exists_cons_of_ne_nil hne
    exact ⟨c, t, rfl, h.head_ne c rfl⟩
  | @more cs ds _ _ h _ =>
    -- an empty word has a comma behind it
    rcases cs with - | ⟨c, t⟩
    · exact ⟨',', ds, rfl, by decide⟩
    · exact ⟨c, _, rfl, h.head_ne c rfl⟩

mutual

theorem readItem_of_literal {cs : List Char} {vs : List Json} (h : Literal .reader cs vs)
    (r : List Char) : readItem (cs ++ r) = some (.arr vs, r) := by
  match h with
  | .empty hgap =>
    obtain rfl : _ = [] := hgap
    rfl
  | .items hne h =>
    have hread := readItem_list (h.exists_eq_cons hne) ('\x7d' :: r)
    rw [readItems_of_elements h r] at hread
    rw [List.cons_append, List.append_assoc]
    exact hread

theorem readItems_of_elements {cs : List Char} {vs : List Json} (h : Elements .reader cs vs)
    (r : List Char) : readItems (cs ++ '\x7d' :: r) = some (vs, r) := by
  match h with
  | .last h => exact readItems_of_last (readItem_of_element h rfl r)
  | @Elements.more _ _ ds _ _ h hs =>
    have hitem := readItem_of_element h (c := ',') rfl (ds ++ '\x7d' :: r)
    rw [List.append_assoc, List.cons_append, readItems_of_comma hitem,
      readItems_of_elements hs r]
    · rfl
    · simp only [List.length_append, List.length_cons]
      omega

theorem readItem_of_element {cs : List Char} {v : Json} (h : Element .reader cs v) {c : Char}
    (hc : isBare c = false) (r : List Char) : readItem (cs ++ c :: r) = some (v, c :: r) := by
  match h with
  | .list hbefore h hafter =>
    obtain rfl : _ = [] := hbefore
    obtain rfl : _ = [] := hafter
    rw [List.nil_append, List.append_nil]
    exact readItem_of_literal h _
  | .quoted hbefore h hafter =>
    obtain rfl : _ = [] := hbefore
    obtain rfl : _ = [] := hafter
    rw [List.nil_append, List.cons_append, List.append_assoc, readItem, List.singleton_append,
      readQuoted_of_escaped h]
    rfl
  | .word h => exact readItem_run h hc r

end

/-- What the reader takes for an item is an element, as long as what it takes
for lists of items are elements in texts that are shorter. -/
theorem element_of_readItem {cs r : List Char} {v : Json}
    (ih : ∀ ds : List Char, ds.length < cs.length → ∀ vs r, readItems ds = some (vs, r) →
      ∃ inside, Elements .reader inside vs ∧ ds = inside ++ '\x7d' :: r)
    (h : readItem cs = some (v, r)) : ∃ inside, Element .reader inside v ∧ cs = inside ++ r := by
  unfold readItem at h
  split at h
  · cases h
  · obtain ⟨rfl, rfl⟩ := Prod.mk.inj (Option.some.inj h)
    exact ⟨_, .list rfl (.empty rfl) rfl, rfl⟩
  · next rest hbrace =>
    obtain ⟨⟨vs, r⟩, hread, h⟩ := Option.map_eq_some_iff.mp h
    obtain ⟨rfl, rfl⟩ := Prod.mk.inj h
    obtain ⟨inside, hinside, rfl⟩ := ih rest (by simp) vs r hread
    have hne : inside ≠ [] := by
      rintro rfl
      exact hbrace r rfl
    refine ⟨_, .list rfl (.items hne hinside) rfl, ?_⟩
    simp
  · obtain ⟨⟨text, r⟩, hread, h⟩ := Option.map_eq_some_iff.mp h
    obtain ⟨rfl, rfl⟩ := Prod.mk.inj h
    obtain ⟨inside, hinside, rfl⟩ := escaped_of_readQuoted hread
    refine ⟨_, .quoted rfl hinside rfl, ?_⟩
    simp
  · next c rest _ hbrace hquote =>
    obtain ⟨rfl, rfl⟩ := Prod.mk.inj (Option.some.inj h)
    refine ⟨_, .word ⟨fun d hd => List.all_eq_true.mp List.all_takeWhile d hd, ?_⟩,
      List.takeWhile_append_dropWhile.symm⟩
    intro d hd
    rw [List.head?_takeWhile] at hd
    obtain ⟨hd, -⟩ := Option.filter_eq_some_iff.mp hd
    obtain rfl := Option.some.inj hd
    exact ⟨hbrace, hquote⟩

theorem elements_of_readItems (cs : List Char) (vs : List Json) (r : List Char)
    (h : readItems cs = some (vs, r)) :
    ∃ inside, Elements .reader inside vs ∧ cs = inside ++ '\x7d' :: r := by
  have hitem : ∀ v r, readItem cs = some (v, r) →
      ∃ inside, Element .reader inside v ∧ cs = inside ++ r := fun v r hr =>
    element_of_readItem (fun ds _ vs r hds => elements_of_readItems ds vs r hds) hr
  rw [readItems_eq] at h
  split at h
  · next v rest hv =>
    obtain ⟨rfl, rfl⟩ := Prod.mk.inj (Option.some.inj h)
    obtain ⟨inside, hinside, e⟩ := hitem _ _ hv
    exact ⟨inside, .last hinside, e⟩
  · next v rest hv =>
    split at h
    · next hlength =>
      obtain ⟨⟨vs, r⟩, hread, h⟩ := Option.map_eq_some_iff.mp h
      obtain ⟨rfl, rfl⟩ := Prod.mk.inj h
      obtain ⟨inside, hinside, e⟩ := hitem _ _ hv
      obtain ⟨others, hothers, rfl⟩ := elements_of_readItems rest vs r hread
      refine ⟨_, .more hinside hothers, ?_⟩
      rw [e, List.append_assoc, List.cons_append]
    · cases h
  · cases h
termination_by cs.length

/-- The reader accepts exactly the literals of its dialect. -/
theorem parse?_eq_some_iff {text : String} {vs : List Json} :
    parse? text = some vs ↔ Literal .reader (trim text.toList) vs := by
  rw [parse?]
  constructor
  · intro h
    split at h
    · next e =>
      obtain rfl := Option.some.inj h
      rw [e]
      exact @Literal.empty .reader [] rfl
    · next rest hbrace e =>
      rw [e]
      split at h
      · next vs' hread =>
        obtain rfl := Option.some.inj h
        obtain ⟨inside, hinside, rfl⟩ := elements_of_readItems _ _ _ hread
        refine .items ?_ hinside
        rintro rfl
        exact hbrace rfl
      · cases h
    · cases h
  · intro h
    generalize trim text.toList = cs at h
    cases h with
    | empty hgap =>
      obtain rfl : _ = [] := hgap
      rfl
    | items hne h =>
      have hread := readItems_of_elements h []
      obtain ⟨c, t, rfl, hc⟩ := h.exists_eq_cons hne
      split
      · next e => exact absurd (List.cons.inj (List.cons.inj e).2).1 hc
      · next e => rw [← (List.cons.inj e).2, hread]
      · next e => exact (e _ rfl).elim

end CriteriaSql.ArrayLiteral
