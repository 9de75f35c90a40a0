/-
CriteriaSql/Proofs/ArrayLiteral/Standard.lean

Where the reader of array literals keeps to the standard.

The reader knows no gaps and has a wide notion of words.  So blanks beside a
quoted element or a list are refused or become part of a word, and a word may be
empty or hold quotes.  A text that is a standard literal and one of the reader,
with the same items, is a narrow one: the two readings run along together, and
where one of them takes a gap, or a quoted element for a word, they come to
different items (`Literal.narrow_of`).

Main result: the reader accepts exactly the standard literals with a given
text, and returns their items, just when that text is a narrow literal or no
literal of either dialect (`readsStandard_iff`).  This is not so for all texts
(`not_forall_readsStandard`).
-/
import CriteriaSql.Proofs.ArrayLiteral.Grammar

namespace CriteriaSql.ArrayLiteral

open Text (isBlank trim)

/-! ### Literals of both dialects -/

theorem isBlank_of_isBare_eq_false {c : Char} (h : isBare c = false) : isBlank c = false := by
  simp only [isBare, Bool.and_eq_false_iff, bne_eq_false_iff_eq] at h
  rcases h with rfl | rfl <;> rfl

/-- There is no gap in front of a character that is not blank. -/
theorem gap_eq_nil {gap : List Char} (hgap : Dialect.standard.gap gap) {c : Char}
    (hc : isBlank c = false) {r r' : List Char} (e : gap ++ r = c :: r') : gap = [] := by
  rcases gap with - | ⟨b, gap⟩
  · rfl
  · obtain ⟨rfl, -⟩ := List.cons.inj e
    have := hgap b List.mem_cons_self
    rw [hc] at this
    cases this

/-- Texts up to the first character without a property are the same. -/
theorem span_unique {p : Char → Bool} {cs ds r r' : List Char} {c d : Char}
    (hcs : ∀ k ∈ cs, p k = true) (hds : ∀ k ∈ ds, p k = true) (hc : p c = false)
    (hd : p d = false) (e : cs ++ c :: r = ds ++ d :: r') : cs = ds ∧ c :: r = d :: r' := by
  have hends : ∀ {c : Char} {r : List Char}, p c = false → ∀ k ∈ (c :: r).head?, p k = false := by
    rintro c r hc k hk
    obtain rfl := Option.some.inj hk
    exact hc
  have htake := takeWhile_append_of_ends hcs (hends hc (r := r))
  rw [e, takeWhile_append_of_ends hds (hends hd)] at htake
  exact ⟨htake.symm, List.append_cancel_left (htake ▸ e)⟩

theorem isBare_of_gap {gap : List Char} (hgap : Dialect.standard.gap gap) :
    ∀ c ∈ gap, isBare c = true := by
  intro c hc
  by_contra hbare
  have hblank := isBlank_of_isBare_eq_false (Bool.eq_false_iff.mpr hbare)
  rw [hgap c hc] at hblank
  cases hblank

theorem trim_quoted {before after : List Char} (hbefore : Dialect.standard.gap before)
    (inside : List Char) (hafter : Dialect.standard.gap after) :
    trim (before ++ ('"' :: (inside ++ '"' :: after))) = '"' :: (inside ++ ['"']) := by
  have hshape : '"' :: (inside ++ '"' :: after) = ('"' :: (inside ++ ['"'])) ++ after := by
    rw [List.cons_append, List.append_assoc, List.singleton_append]
  rw [hshape]
  refine Text.trim_blanks_append hbefore ?_ ?_ hafter
  · rintro c hc
    obtain rfl := Option.some.inj hc
    rfl
  · rw [← List.cons_append, List.getLast?_concat]
    rintro c hc
    obtain rfl := Option.some.inj hc
    rfl

/-- A quoted element that is read as a word is read as another text: the word
has the quotes, or ends before them. -/
theorem Escaped.ne_bareValue {before inside text after ds r r' : List Char} {c d : Char}
    (hbefore : Dialect.standard.gap before) (h : Escaped inside text)
    (hafter : Dialect.standard.gap after) (hds : IsRun ds) (hc : isBare c = false)
    (hd : isBare d = false)
    (e : before ++ ('"' :: (inside ++ '"' :: after)) ++ c :: r = ds ++ d :: r') :
    Json.str (String.ofList text) ≠ bareValue ds := by
  intro hv
  have htext : text = trim ds := by
    unfold bareValue at hv
    dsimp only at hv
    split at hv
    · cases hv
    · exact String.ofList_injective (Json.str.inj hv)
  by_cases hbare : ∀ k ∈ inside, isBare k = true
  · -- the word is the whole element, whose quotes are not part of the text
    have hquoted : ∀ k ∈ before ++ ('"' :: (inside ++ '"' :: after)), isBare k = true := by
      simp only [List.forall_mem_append, List.forall_mem_cons]
      exact ⟨isBare_of_gap hbefore, rfl, hbare, rfl, isBare_of_gap hafter⟩
    have hword := (span_unique hquoted hds.bare hc hd e).1
    have hlength := h.length_le
    rw [htext, ← hword, trim_quoted hbefore inside hafter, List.length_cons, List.length_append]
      at hlength
    omega
  · -- the word ends inside of the quotes, at a character of the text
    simp only [not_forall, Bool.not_eq_true] at hbare
    obtain ⟨k, hk, hkbare⟩ := hbare
    have hslash : k ≠ '\\' := by
      rintro rfl
      cases hkbare
    have hmem := h.mem hk hslash
    rw [htext] at hmem
    have hword := hds.bare k (Text.mem_of_mem_trim hmem)
    rw [hkbare] at hword
    cases hword

/-- A word of the standard does not begin as a list or a quoted element does. -/
theorem IsWord.ne_cons {cs : List Char} (h : IsWord cs) {c d : Char} (hd : d = '\x7b' ∨ d = '"')
    {r r' : List Char} : cs ++ c :: r ≠ d :: r' := by
  rcases cs with - | ⟨k, cs⟩
  · exact absurd Text.trim_nil h.nonblank
  · intro e
    obtain ⟨rfl, -⟩ := List.cons.inj e
    obtain ⟨-, hbrace, -, hquote, -⟩ := h.plain k List.mem_cons_self
    rcases hd with rfl | rfl
    · exact hbrace rfl
    · exact hquote rfl

theorem Literal.exists_eq_cons {d : Dialect} {cs : List Char} {vs : List Json}
    (h : Literal d cs vs) : ∃ t, cs = '\x7b' :: t := by
  cases h <;> exact ⟨_, rfl⟩

theorem bareValue_ne_arr (cs : List Char) (vs : List Json) : bareValue cs ≠ .arr vs := by
  unfold bareValue
  dsimp only
  split <;> exact fun h => nomatch h

mutual

/-- A literal of the standard that the reader reads with the same items is a
narrow one. -/
theorem Literal.narrow_of {cs ds x y : List Char} {vs : List Json} (h : Literal .standard cs vs)
    (h' : Literal .reader ds vs) (e : cs ++ x = ds ++ y) : cs = ds ∧ Literal .narrow cs vs := by
  match h, h' with
  | .empty hgap, .empty hnone =>
    obtain rfl : _ = [] := hnone
    rw [List.cons_append, List.append_assoc] at e
    obtain rfl := gap_eq_nil hgap (c := '\x7d') rfl (List.cons.inj e).2
    exact ⟨rfl, .empty rfl⟩
  | .empty _, .items _ hs => exact absurd rfl hs.ne_nil
  | .items _ hs, .empty _ => exact absurd rfl hs.ne_nil
  | .items hne hs, .items _ hs' =>
    simp only [List.cons_append, List.append_assoc, List.nil_append] at e
    obtain ⟨rfl, hnarrow⟩ := hs.narrow_of hs' (List.cons.inj e).2
    exact ⟨rfl, .items hne hnarrow⟩

theorem Elements.narrow_of {cs ds x y : List Char} {vs : List Json} (h : Elements .standard cs vs)
    (h' : Elements .reader ds vs) (e : cs ++ '\x7d' :: x = ds ++ '\x7d' :: y) :
    cs = ds ∧ Elements .narrow cs vs := by
  match h, h' with
  | .last h, .last h' =>
    obtain ⟨rfl, hnarrow⟩ := h.narrow_of h' rfl rfl e
    exact ⟨rfl, .last hnarrow⟩
  | .last _, .more _ hs => exact absurd rfl hs.ne_nil
  | .more _ hs, .last _ => exact absurd rfl hs.ne_nil
  | .more h hs, .more h' hs' =>
    rw [List.append_assoc, List.append_assoc, List.cons_append, List.cons_append] at e
    obtain ⟨rfl, hnarrow⟩ := h.narrow_of h' (c := ',') (d := ',') rfl rfl e
    obtain ⟨rfl, hothers⟩ := hs.narrow_of hs' (List.cons.inj (List.append_cancel_left e)).2
    exact ⟨rfl, .more hnarrow hothers⟩

theorem Element.narrow_of {cs ds x y : List Char} {v : Json} {c d : Char}
    (h : Element .standard cs v) (h' : Element .reader ds v) (hc : isBare c = false)
    (hd : isBare d = false) (e : cs ++ c :: x = ds ++ d :: y) :
    cs = ds ∧ Element .narrow cs v := by
  have hblank := isBlank_of_isBare_eq_false hd
  match h with
  | .list hbefore h hafter =>
    generalize hv : Json.arr _ = v at h'
    cases h' with
    | list hnone h' hnone' =>
      obtain rfl : _ = [] := hnone
      obtain rfl : _ = [] := hnone'
      obtain rfl := Json.arr.inj hv
      obtain ⟨t, ht⟩ := h'.exists_eq_cons
      simp only [List.nil_append, List.append_nil, List.append_assoc] at e ⊢
      obtain rfl := gap_eq_nil hbefore (c := '\x7b') rfl (by rw [e, ht, List.cons_append])
      obtain ⟨rfl, hnarrow⟩ := h.narrow_of h' e
      obtain rfl := gap_eq_nil hafter hblank (List.append_cancel_left e)
      exact ⟨List.append_nil _, @Element.list .narrow [] _ [] _ rfl hnarrow rfl⟩
    | quoted => cases hv
    | word => exact absurd hv.symm (bareValue_ne_arr ds _)
  | .quoted hbefore h hafter =>
    generalize hv : Json.str _ = v at h'
    cases h' with
    | list => cases hv
    | quoted hnone h' hnone' =>
      obtain rfl : _ = [] := hnone
      obtain rfl : _ = [] := hnone'
      simp only [List.nil_append, List.append_assoc, List.cons_append] at e ⊢
      obtain rfl := gap_eq_nil hbefore (c := '"') rfl e
      obtain ⟨rfl, -, hrest⟩ := h.unique h' (List.cons.inj e).2
      obtain rfl := gap_eq_nil hafter hblank hrest
      rw [← hv]
      exact ⟨rfl, @Element.quoted .narrow [] _ [] _ rfl h rfl⟩
    | word h' => exact absurd hv (h.ne_bareValue hbefore hafter h' hc hd e)
  | .word h =>
    generalize hv : bareValue cs = v at h'
    cases h' with
    | list hnone h' _ =>
      obtain rfl : _ = [] := hnone
      obtain ⟨t, rfl⟩ := h'.exists_eq_cons
      exact absurd e (h.ne_cons (.inl rfl))
    | quoted hnone _ _ =>
      obtain rfl : _ = [] := hnone
      exact absurd e (h.ne_cons (.inr rfl))
    | word h' =>
      obtain ⟨rfl, -⟩ := span_unique h.isBare h'.bare hc hd e
      rw [← hv]
      exact ⟨rfl, .word h⟩

end

/-! ### Standard literals have one reading -/

/-- Behind a gap a word goes on with a character of its own. -/
theorem IsWord.exists_eq_append {cs : List Char} (h : IsWord cs) :
    ∃ gap c t, cs = gap ++ c :: t ∧ Dialect.standard.gap gap ∧ isBlank c = false ∧ c ∈ cs := by
  have hsplit : cs.takeWhile isBlank ++ cs.dropWhile isBlank = cs := List.takeWhile_append_dropWhile
  rcases e : cs.dropWhile isBlank with - | ⟨c, t⟩
  · refine absurd ?_ h.nonblank
    rw [trim, Text.trimStart, e]
    rfl
  · have hc : isBlank c = false := by
      have := List.head_dropWhile_not isBlank (l := cs) (by rw [e]; exact List.cons_ne_nil c t)
      simpa [e] using this
    rw [e] at hsplit
    refine ⟨_, c, t, hsplit.symm, fun d hd => List.all_eq_true.mp List.all_takeWhile d hd, hc, ?_⟩
    rw [← hsplit]
    exact List.mem_append_right _ List.mem_cons_self

/-- Behind a gap a word does not go on as a list or a quoted element does. -/
theorem IsWord.ne_gap_cons {cs gap : List Char} (h : IsWord cs) (hgap : Dialect.standard.gap gap)
    {d : Char} (hd : d = '\x7b' ∨ d = '"') {x y : List Char} : cs ++ x ≠ gap ++ d :: y := by
  obtain ⟨gap', k, t, rfl, hgap', hk, hmem⟩ := h.exists_eq_append
  obtain ⟨-, hbrace, -, hquote, -⟩ := h.plain k hmem
  rw [List.append_assoc]
  intro e
  have hdblank : isBlank d = false := by rcases hd with rfl | rfl <;> rfl
  obtain rfl := (List.cons.inj (span_unique hgap' hgap hk hdblank e).2).1
  rcases hd with rfl | rfl
  · exact hbrace rfl
  · exact hquote rfl

/-- Behind a gap an element does not go on with the brace that closes a list. -/
theorem Element.exists_eq_append {cs : List Char} {v : Json} (h : Element .standard cs v) :
    ∃ gap c t, cs = gap ++ c :: t ∧ Dialect.standard.gap gap ∧ isBlank c = false ∧ c ≠ '\x7d' := by
  cases h with
  | list hbefore h _ =>
    obtain ⟨t, rfl⟩ := h.exists_eq_cons
    exact ⟨_, '\x7b', _, rfl, hbefore, rfl, by decide⟩
  | quoted hbefore _ _ => exact ⟨_, '"', _, rfl, hbefore, rfl, by decide⟩
  | word h =>
    obtain ⟨gap, c, t, e, hgap, hc, hmem⟩ := h.exists_eq_append
    exact ⟨gap, c, t, e, hgap, hc, (h.plain c hmem).2.2.1⟩

theorem Elements.ne_gap {cs : List Char} {vs : List Json} (h : Elements .standard cs vs)
    {gap x y : List Char} (hgap : Dialect.standard.gap gap) :
    gap ++ '\x7d' :: x ≠ cs ++ y := by
  have hstart : ∃ gap c t, cs = gap ++ c :: t ∧ Dialect.standard.gap gap ∧ isBlank c = false
      ∧ c ≠ '\x7d' := by
    cases h with
    | last h => exact h.exists_eq_append
    | more h _ =>
      obtain ⟨gap, c, t, rfl, hstart⟩ := h.exists_eq_append
      exact ⟨gap, c, _, by rw [List.append_assoc, List.cons_append], hstart⟩
  obtain ⟨gap', c, t, rfl, hgap', hblank, hc⟩ := hstart
  rw [List.append_assoc]
  intro e
  exact hc (List.cons.inj (span_unique hgap hgap' rfl hblank e).2).1.symm

mutual

theorem Literal.unique {cs ds x y : List Char} {vs vs' : List Json} (h : Literal .standard cs vs)
    (h' : Literal .standard ds vs') (e : cs ++ x = ds ++ y) : cs = ds ∧ vs = vs' := by
  match h, h' with
  | .empty hgap, .empty hgap' =>
    simp only [List.cons_append, List.append_assoc, List.nil_append] at e
    obtain ⟨rfl, -⟩ :=
      span_unique hgap hgap' (c := '\x7d') (d := '\x7d') rfl rfl (List.cons.inj e).2
    exact ⟨rfl, rfl⟩
  | .empty hgap, .items _ hs =>
    simp only [List.cons_append, List.append_assoc, List.nil_append] at e
    exact absurd (List.cons.inj e).2 (hs.ne_gap hgap)
  | .items _ hs, .empty hgap =>
    simp only [List.cons_append, List.append_assoc, List.nil_append] at e
    exact absurd (List.cons.inj e).2.symm (hs.ne_gap hgap)
  | .items _ hs, .items _ hs' =>
    simp only [List.cons_append, List.append_assoc, List.nil_append] at e
    obtain ⟨rfl, rfl⟩ := hs.unique hs' (List.cons.inj e).2
    exact ⟨rfl, rfl⟩

theorem Elements.unique {cs ds x y : List Char} {vs vs' : List Json}
    (h : Elements .standard cs vs) (h' : Elements .standard ds vs')
    (e : cs ++ '\x7d' :: x = ds ++ '\x7d' :: y) : cs = ds ∧ vs = vs' := by
  match h, h' with
  | .last h, .last h' =>
    obtain ⟨rfl, rfl⟩ := h.unique h' rfl rfl e
    exact ⟨rfl, rfl⟩
  | .last h, .more h' _ =>
    rw [List.append_assoc, List.cons_append] at e
    obtain ⟨rfl, -⟩ := h.unique h' rfl (d := ',') rfl e
    exact absurd (List.cons.inj (List.append_cancel_left e)).1 (by decide)
  | .more h _, .last h' =>
    rw [List.append_assoc, List.cons_append] at e
    obtain ⟨rfl, -⟩ := h.unique h' (c := ',') rfl rfl e
    exact absurd (List.cons.inj (List.append_cancel_left e)).1 (by decide)
  | .more h hs, .more h' hs' =>
    rw [List.append_assoc, List.append_assoc, List.cons_append, List.cons_append] at e
    obtain ⟨rfl, rfl⟩ := h.unique h' (c := ',') (d := ',') rfl rfl e
    obtain ⟨rfl, rfl⟩ := hs.unique hs' (List.cons.inj (List.append_cancel_left e)).2
    exact ⟨rfl, rfl⟩

theorem Element.unique {cs ds x y : List Char} {v v' : Json} {c d : Char}
    (h : Element .standard cs v) (h' : Element .standard ds v') (hc : isBare c = false)
    (hd : isBare d = false) (e : cs ++ c :: x = ds ++ d :: y) : cs = ds ∧ v = v' := by
  have hcblank := isBlank_of_isBare_eq_false hc
  have hdblank := isBlank_of_isBare_eq_false hd
  match h, h' with
  | .list hbefore h hafter, .list hbefore' h' hafter' =>
    obtain ⟨t, rfl⟩ := h.exists_eq_cons
    obtain ⟨t', rfl⟩ := h'.exists_eq_cons
    simp only [List.append_assoc, List.cons_append] at e
    obtain ⟨rfl, hliteral⟩ := span_unique hbefore hbefore' rfl rfl e
    obtain ⟨ht, rfl⟩ := h.unique h' hliteral
    obtain rfl := (List.cons.inj ht).2
    have hend := List.append_cancel_left (List.cons.inj hliteral).2
    obtain ⟨rfl, -⟩ := span_unique hafter hafter' hcblank hdblank hend
    exact ⟨rfl, rfl⟩
  | .quoted hbefore h hafter, .quoted hbefore' h' hafter' =>
    simp only [List.append_assoc, List.cons_append] at e
    obtain ⟨rfl, hquoted⟩ := span_unique hbefore hbefore' (c := '"') (d := '"') rfl rfl e
    obtain ⟨rfl, rfl, hrest⟩ := h.unique h' (List.cons.inj hquoted).2
    obtain ⟨rfl, -⟩ := span_unique hafter hafter' hcblank hdblank hrest
    exact ⟨rfl, rfl⟩
  | .word h, .word h' =>
    obtain ⟨rfl, -⟩ := span_unique h.isBare h'.isBare hc hd e
    exact ⟨rfl, rfl⟩
  -- elements of different kinds differ at the first character behind the gap
  | .list hbefore h _, .quoted hbefore' _ _ =>
    obtain ⟨t, rfl⟩ := h.exists_eq_cons
    simp only [List.append_assoc, List.cons_append] at e
    have hhead := (span_unique hbefore hbefore' rfl rfl e).2
    exact absurd (List.cons.inj hhead).1 (by decide)
  | .quoted hbefore _ _, .list hbefore' h' _ =>
    obtain ⟨t, rfl⟩ := h'.exists_eq_cons
    simp only [List.append_assoc, List.cons_append] at e
    have hhead := (span_unique hbefore hbefore' rfl rfl e).2
    exact absurd (List.cons.inj hhead).1 (by decide)
  | .list hbefore h _, .word h' =>
    obtain ⟨t, rfl⟩ := h.exists_eq_cons
    simp only [List.append_assoc, List.cons_append] at e
    exact absurd e.symm (h'.ne_gap_cons hbefore (.inl rfl))
  | .word h, .list hbefore' h' _ =>
    obtain ⟨t, rfl⟩ := h'.exists_eq_cons
    simp only [List.append_assoc, List.cons_append] at e
    exact absurd e (h.ne_gap_cons hbefore' (.inl rfl))
  | .quoted hbefore _ _, .word h' =>
    simp only [List.append_assoc, List.cons_append] at e
    exact absurd e.symm (h'.ne_gap_cons hbefore (.inr rfl))
  | .word h, .quoted hbefore' _ _ =>
    simp only [List.append_assoc, List.cons_append] at e
    exact absurd e (h.ne_gap_cons hbefore' (.inr rfl))

end

/-! ### Main result -/

/-- The reader accepts exactly the standard literals with this text, blanks
around them dropped, and returns their items. -/
def ReadsStandard (text : String) : Prop :=
  ∀ vs, parse? text = some vs ↔ Literal .standard (trim text.toList) vs

/-- The reader accepts exactly the literals of its own dialect.  It keeps to the
standard for a text just when the text is a narrow literal or no literal at all:
no blanks stand beside a quoted element or a list or between the braces of an
empty list, and no unquoted element is blank or holds an opening brace, a quote
or a backslash. -/
theorem readsStandard_iff (text : String) :
    (∀ vs, parse? text = some vs ↔ Literal .reader (trim text.toList) vs)
    ∧ (ReadsStandard text ↔
      (∃ vs, Literal .narrow (trim text.toList) vs)
      ∨ ∀ vs, ¬Literal .standard (trim text.toList) vs
          ∧ ¬Literal .reader (trim text.toList) vs) := by
  refine ⟨fun vs => parse?_eq_some_iff, ?_, ?_⟩
  · intro hreads
    -- a literal of one dialect is one of the other as well, so the two readings agree
    by_cases hnone : ∃ vs, Literal .reader (trim text.toList) vs
    · obtain ⟨vs, h⟩ := hnone
      have hstandard := (hreads vs).mp (parse?_eq_some_iff.mpr h)
      exact .inl ⟨vs, (hstandard.narrow_of h (x := []) (y := []) rfl).2⟩
    · refine .inr fun vs => ⟨fun h => hnone ⟨vs, ?_⟩, fun h => hnone ⟨vs, h⟩⟩
      exact parse?_eq_some_iff.mp ((hreads vs).mpr h)
  · rintro (⟨vs, hnarrow⟩ | hnone) us
    · have hstandard := hnarrow.widen Dialect.narrow_within_standard
      have hreader := parse?_eq_some_iff.mpr (hnarrow.widen Dialect.narrow_within_reader)
      constructor
      · intro h
        obtain rfl := Option.some.inj (hreader.symm.trans h)
        exact hstandard
      · intro h
        obtain rfl := (hstandard.unique h (x := []) (y := []) rfl).2
        exact hreader
    · rw [parse?_eq_some_iff]
      exact ⟨fun h => absurd h (hnone us).2, fun h => absurd h (hnone us).1⟩

theorem readsStandard_iff_words : ReadsStandard "\x7ba, b ,\"c \",NULL,\x7b\x7d\x7d" := by
  refine (readsStandard_iff _).2.mpr (.inl ⟨[.str "a", .str "b", .str "c ", .null, .arr []], ?_⟩)
  have ha : IsWord ['a'] := ⟨by decide, by simp⟩
  have hb : IsWord [' ', 'b', ' '] := ⟨by decide, by simp⟩
  have hnull : IsWord ['N', 'U', 'L', 'L'] := ⟨by decide, by simp⟩
  have hc : Escaped ['c', ' '] ['c', ' '] := .plain (by decide) (by decide)
    (.plain (by decide) (by decide) .nil)
  exact .items (by decide) (.more (.word ha) (.more (.word hb)
    (.more (@Element.quoted .narrow [] _ [] _ rfl hc rfl) (.more (.word hnull)
      (.last (@Element.list .narrow [] _ [] _ rfl (.empty rfl) rfl))))))

/-! ### Texts that are misread -/

/-- In the standard dialect an empty text is written in quotes. -/
theorem Element.quote_mem {cs : List Char} (h : Element .standard cs (.str "")) : '"' ∈ cs := by
  generalize hv : Json.str "" = v at h
  cases h with
  | list => cases hv
  | quoted => simp
  | word h =>
    unfold bareValue at hv
    dsimp only at hv
    split at hv
    · cases hv
    · have hempty : trim cs = [] := String.ofList_injective (Json.str.inj hv).symm
      exact absurd hempty h.nonblank

theorem Elements.quote_mem {cs : List Char} {vs : List Json} (h : Elements .standard cs vs)
    (hv : .str "" ∈ vs) : '"' ∈ cs := by
  match h with
  | .last h =>
    obtain rfl := List.mem_singleton.mp hv
    exact h.quote_mem
  | .more h hs =>
    rcases List.mem_cons.mp hv with rfl | hv
    · exact List.mem_append_left _ h.quote_mem
    · exact List.mem_append_right _ (List.mem_cons_of_mem _ (hs.quote_mem hv))

/-- Blanks in front of a quoted element make it a word with quotes in it, and
blanks behind one are refused; blanks between braces are read as an empty text,
and so is nothing at all behind a comma. -/
theorem not_forall_readsStandard :
    (parse? "\x7b \"a\"\x7d" = some [.str "\"a\""]
      ∧ Literal .standard "\x7b \"a\"\x7d".toList [.str "a"])
    ∧ (parse? "\x7b\"a\" \x7d" = none ∧ Literal .standard "\x7b\"a\" \x7d".toList [.str "a"])
    ∧ (parse? "\x7b \x7d" = some [.str ""] ∧ Literal .standard "\x7b \x7d".toList [])
    ∧ (parse? "\x7ba,\x7d" = some [.str "a", .str ""]
      ∧ ¬Literal .standard "\x7ba,\x7d".toList [.str "a", .str ""])
    ∧ ¬∀ text, ReadsStandard text := by
  have hgap : Dialect.standard.gap [' '] := by
    intro c hc
    obtain rfl := List.mem_singleton.mp hc
    rfl
  have hnone : Dialect.standard.gap [] := fun c hc => absurd hc List.not_mem_nil
  have ha : Escaped ['a'] ['a'] := .plain (by decide) (by decide) .nil
  have hbefore : Literal .standard "\x7b \"a\"\x7d".toList [.str "a"] :=
    .items (by decide) (.last (.quoted hgap ha hnone))
  have hbehind : Literal .standard "\x7b\"a\" \x7d".toList [.str "a"] :=
    .items (by decide) (.last (.quoted hnone ha hgap))
  -- what the reader takes for words
  have hrun : ∀ cs : List Char, cs.all isBare = true → (∀ c ∈ cs.head?, c ≠ '\x7b' ∧ c ≠ '"') →
      Element .reader cs (bareValue cs) := fun cs hbare hhead =>
    .word ⟨List.all_eq_true.mp hbare, hhead⟩
  have hquotes : parse? "\x7b \"a\"\x7d" = some [.str "\"a\""] := parse?_eq_some_iff.mpr
    (.items (List.cons_ne_nil _ _) (.last (hrun [' ', '"', 'a', '"'] rfl (by simp))))
  have hblank : parse? "\x7b \x7d" = some [.str ""] := parse?_eq_some_iff.mpr
    (.items (List.cons_ne_nil _ _) (.last (hrun [' '] rfl (by simp))))
  have hcomma : parse? "\x7ba,\x7d" = some [.str "a", .str ""] := parse?_eq_some_iff.mpr
    (.items (List.cons_ne_nil _ _) (.more (hrun ['a'] rfl (by simp))
      (.last (hrun [] rfl (by simp)))))
  refine ⟨⟨hquotes, hbefore⟩, ⟨by decide +kernel, hbehind⟩, ⟨hblank, .empty hgap⟩,
    ⟨hcomma, ?_⟩, ?_⟩
  · generalize htext : "\x7ba,\x7d".toList = text
    intro h
    cases h with
    | items _ h =>
      have hquote := h.quote_mem (List.mem_cons_of_mem _ List.mem_cons_self)
      have hmem : '"' ∈ "\x7ba,\x7d".toList := by
        rw [htext]
        exact List.mem_cons_of_mem _ (List.mem_append_left _ hquote)
      exact absurd hmem (by decide)
  · intro h
    have hread := (h "\x7b \"a\"\x7d" [.str "a"]).mpr hbefore
    rw [hquotes] at hread
    exact absurd (Json.str.inj (List.cons.inj (Option.some.inj hread)).1) (by decide)

end CriteriaSql.ArrayLiteral
