/-
CriteriaSql/Proofs/ArrayLiteral/RoundTrip.lean

Array literals read back.

The reader takes an item from the front of a text and stops at the comma or the
closing brace behind it (`readItem`).  What the writer makes of an item is
either a word that the reader leaves as it is, or stands in quotes that the
reader takes off (`readItem_element`), or is the literal of a list; so the item
and all that follows it read back together (`readItem_itemChars`).  Reading does
not tell a string from the text of another scalar: every item comes back as its
text, and null as null (`asText`).

Main result: the literal of any list reads back as the texts of its items, and
whatever the reader returns reads back as it is (`parse?_write_eq_asTexts`).
-/
import CriteriaSql.ArrayLiteral
import CriteriaSql.Proofs.Json.NumberText

namespace CriteriaSql

namespace ArrayLiteral

open Text (isBlank trim asciiLowercase)

/-! ### Items as texts -/

mutual

/-- What an item reads back as: null as null, a list item by item, and all else
as its text. -/
def asText : Json → Json
  | .null => .null
  | .bool b => .str (Json.bool b).text
  | .num n => .str n.text
  | .str s => .str s
  | .arr items => .arr (asTexts items)
  | .obj members => .str (Json.obj members).text

/-- What the items of a list read back as. -/
def asTexts : List Json → List Json
  | [] => []
  | v :: vs => asText v :: asTexts vs

end

theorem asTexts_eq_map (vs : List Json) : asTexts vs = vs.map asText := by
  induction vs with
  | nil => rfl
  | cons v vs ih => rw [asTexts, ih, List.map_cons]

/-! ### Reading one item -/

/-- Read one item from the front of a text. -/
def readItem : List Char → Option (Json × List Char)
  | [] => none
  | '\x7b' :: '\x7d' :: rest => some (.arr [], rest)
  | '\x7b' :: rest => (readItems rest).map fun r => (.arr r.1, r.2)
  | '"' :: rest => (readQuoted rest).map fun r => (.str (String.ofList r.1), r.2)
  | c :: rest => some (bareValue ((c :: rest).takeWhile isBare), (c :: rest).dropWhile isBare)

theorem readItems_eq (cs : List Char) :
    readItems cs =
      match readItem cs with
      | some (v, '\x7d' :: rest) => some ([v], rest)
      | some (v, ',' :: rest) =>
        if rest.length < cs.length then (readItems rest).map fun r => (v :: r.1, r.2) else none
      | _ => none := by
  rw [readItems.eq_def]
  rfl

/-- A list of items begins with an item and what ends it. -/
theorem readItems_of_last {cs rest : List Char} {v : Json}
    (h : readItem cs = some (v, '\x7d' :: rest)) : readItems cs = some ([v], rest) := by
  rw [readItems_eq, h]
  rfl

theorem readItems_of_comma {cs rest : List Char} {v : Json}
    (h : readItem cs = some (v, ',' :: rest)) (hlength : rest.length < cs.length) :
    readItems cs = (readItems rest).map fun r => (v :: r.1, r.2) := by
  rw [readItems_eq, h]
  exact if_pos hlength

/-! ### Words and quoted elements -/

/-- A text begins with the comma or the closing brace that ends an item. -/
def EndsItem (r : List Char) : Prop :=
  ∀ c ∈ r.head?, isBare c = false

/-- A character that may stand in a word is none that ends an item, opens a
list or opens a quoted element, and it is not blank. -/
theorem of_isSpecial_eq_false {c : Char} (h : isSpecial c = false) :
    isBare c ∧ c ≠ '\x7b' ∧ c ≠ '"' ∧ isBlank c = false := by
  simp only [isSpecial, Bool.or_eq_false_iff, decide_eq_false_iff_not] at h
  simp_all [isBare]

/-- The reader takes a word up to what ends it. -/
theorem readItem_word {cs r : List Char} (hne : cs ≠ []) (hcs : ∀ c ∈ cs, isSpecial c = false)
    (hr : EndsItem r) : readItem (cs ++ r) = some (bareValue cs, r) := by
  have hbare : ∀ c ∈ cs, isBare c := fun c hc => (of_isSpecial_eq_false (hcs c hc)).1
  have htake := takeWhile_append_of_ends hbare hr
  have hdrop := dropWhile_append_of_ends hbare hr
  rcases cs with - | ⟨c, cs⟩
  · exact absurd rfl hne
  · obtain ⟨-, hbrace, hquote, -⟩ := of_isSpecial_eq_false (hcs c List.mem_cons_self)
    rw [List.cons_append] at htake hdrop ⊢
    rw [readItem, htake, hdrop]
    · exact fun _ h _ => hbrace h
    · exact hbrace
    · exact hquote

theorem readQuoted_backslashed (cs rest : List Char) :
    readQuoted (backslashed cs ++ '"' :: rest) = some (cs, rest) := by
  induction cs with
  | nil => rfl
  | cons c cs ih =>
    by_cases hc : c = '"' ∨ c = '\\'
    · rw [backslashed, if_pos (by simpa using hc), List.cons_append, List.cons_append,
        readQuoted, ih]
      rfl
    · obtain ⟨hquote, hslash⟩ := not_or.mp hc
      rw [backslashed, if_neg (by simpa using hc), List.cons_append, readQuoted, if_neg hslash, ih]
      · rfl
      · exact hquote
      · exact fun _ _ h => absurd h hslash

/-- An element reads back as its text, quoted or not. -/
theorem readItem_element (cs : List Char) {r : List Char} (hr : EndsItem r) :
    readItem (element cs ++ r) = some (.str (String.ofList cs), r) := by
  unfold element
  split
  · rw [List.cons_append, List.append_assoc, readItem, List.singleton_append,
      readQuoted_backslashed]
    rfl
  · next h =>
    simp only [Bool.or_eq_true, List.isEmpty_iff, not_or, Bool.not_eq_true, List.any_eq_false]
      at h
    obtain ⟨⟨hne, hnull⟩, hspecial⟩ := h
    rw [readItem_word hne hspecial hr, bareValue,
      Text.trim_eq_self_of_all fun c hc => (of_isSpecial_eq_false (hspecial c hc)).2.2.2, hnull]
    rfl

/-! ### Texts that need no quotes -/

theorem isSpecial_of_isNumberChar {c : Char} (h : isNumberChar c) : isSpecial c = false := by
  have hblank := isBlank_of_isNumberChar h
  simp only [isSpecial, hblank, Bool.or_false, Bool.or_eq_false_iff, decide_eq_false_iff_not]
  refine ⟨⟨⟨⟨?_, ?_⟩, ?_⟩, ?_⟩, ?_⟩ <;> rintro rfl <;> exact absurd h (by decide)

/-- A text that spells NULL begins with one of the two forms of the letter. -/
theorem spellsNull_eq_false {cs : List Char} (h : ∀ c ∈ cs.head?, c.toLower ≠ 'n') :
    spellsNull cs = false := by
  rcases cs with - | ⟨c, cs⟩
  · rfl
  · simp [spellsNull, asciiLowercase, h c rfl]

theorem toLower_ne_of_isNumberChar {c : Char} (h : isNumberChar c) : c.toLower ≠ 'n' := by
  simp only [isNumberChar, Bool.or_eq_true, decide_eq_true_eq] at h
  rcases h with (((h | rfl) | rfl) | rfl) | rfl
  · have hrange := toNat_of_isDigit h
    have hlower : c.toLower = c := by
      refine dif_neg ?_
      rintro ⟨hupper, -⟩
      have : 65 ≤ c.toNat := UInt32.le_iff_toNat_le.mp hupper
      omega
    rw [hlower]
    rintro rfl
    exact absurd hrange.2 (by decide)
  all_goals decide

theorem element_eq_self {cs : List Char} (hne : cs ≠ []) (hnull : spellsNull cs = false)
    (hcs : ∀ c ∈ cs, isSpecial c = false) : element cs = cs := by
  have hany : cs.any isSpecial = false := List.any_eq_false.mpr fun c hc => by simp [hcs c hc]
  rw [element, if_neg (by simp [hne, hnull, hany])]

theorem element_bool (b : Bool) : element (Json.bool b).chars = (Json.bool b).chars := by
  cases b <;> decide

/-- The text of a number needs no quotes. -/
theorem element_number (n : JsonNumber) : element n.chars = n.chars :=
  element_eq_self n.chars_ne_nil
    (spellsNull_eq_false fun _ hc =>
      toLower_ne_of_isNumberChar (JsonNumber.isNumberChar_of_mem_chars (List.mem_of_head? hc)))
    fun _ hc => isSpecial_of_isNumberChar (JsonNumber.isNumberChar_of_mem_chars hc)

/-! ### Lists of items -/

theorem itemsChars_cons (v : Json) (vs : List Json) :
    itemsChars (v :: vs)
      = itemChars v ++ (if vs = [] then ['\x7d'] else ',' :: itemsChars vs) := by
  rcases vs with - | ⟨w, vs⟩
  · rw [itemsChars]
    rfl
  · rw [itemsChars]
    rfl

theorem endsItem_itemsChars (vs : List Json) (rest : List Char) :
    EndsItem ((if vs = [] then ['\x7d'] else ',' :: itemsChars vs) ++ rest) := by
  split
  · rintro c hc
    obtain rfl := Option.some.inj hc
    rfl
  · rintro c hc
    obtain rfl := Option.some.inj hc
    rfl

/-- No item begins with the brace that closes a list. -/
theorem exists_element_eq_cons (cs : List Char) : ∃ c t, element cs = c :: t ∧ c ≠ '\x7d' := by
  unfold element
  split
  · exact ⟨'"', _, rfl, by decide⟩
  · next h =>
    simp only [Bool.or_eq_true, List.isEmpty_iff, not_or, List.any_eq_true, not_exists] at h
    rcases cs with - | ⟨c, cs⟩
    · exact absurd rfl h.1.1
    · refine ⟨c, cs, rfl, ?_⟩
      rintro rfl
      exact h.2 '\x7d' ⟨List.mem_cons_self, rfl⟩

theorem exists_itemChars_eq_cons (v : Json) : ∃ c t, itemChars v = c :: t ∧ c ≠ '\x7d' := by
  rcases v with - | b | n | s | items | members
  · exact ⟨'N', _, rfl, by decide⟩
  · rw [itemChars, ← element_bool]
    exact exists_element_eq_cons _
  · rw [itemChars, ← element_number]
    exact exists_element_eq_cons _
  · exact exists_element_eq_cons _
  · exact ⟨'\x7b', _, rfl, by decide⟩
  · exact exists_element_eq_cons _

/-- A list that has items is read by reading them. -/
theorem readItem_list {cs : List Char} (h : ∃ c t, cs = c :: t ∧ c ≠ '\x7d') (r : List Char) :
    readItem ('\x7b' :: (cs ++ r)) = (readItems (cs ++ r)).map fun r => (.arr r.1, r.2) := by
  obtain ⟨c, t, rfl, hc⟩ := h
  rw [List.cons_append, readItem]
  exact fun _ e => hc (List.cons.inj e).1

mutual

/-- An item reads back, whatever follows the comma or brace behind it. -/
theorem readItem_itemChars (v : Json) {r : List Char} (hr : EndsItem r) :
    readItem (itemChars v ++ r) = some (asText v, r) := by
  match v with
  | .null =>
    have hspecial : ∀ c ∈ ['N', 'U', 'L', 'L'], isSpecial c = false := by
      simp only [List.forall_mem_cons, List.not_mem_nil, false_imp_iff, implies_true, and_true]
      decide
    rw [itemChars, readItem_word (List.cons_ne_nil _ _) hspecial hr]
    rfl
  | .bool b =>
    rw [itemChars, ← element_bool, readItem_element _ hr]
    rfl
  | .num n =>
    rw [itemChars, ← element_number, readItem_element _ hr]
    rfl
  | .str s =>
    rw [itemChars, readItem_element _ hr, String.ofList_toList]
    rfl
  | .obj members =>
    rw [itemChars, readItem_element _ hr]
    rfl
  | .arr [] => rfl
  | .arr (w :: ws) =>
    have hstart : ∃ c t, itemsChars (w :: ws) = c :: t ∧ c ≠ '\x7d' := by
      obtain ⟨c, t, hw, hc⟩ := exists_itemChars_eq_cons w
      exact ⟨c, _, by rw [itemsChars_cons, hw, List.cons_append], hc⟩
    rw [itemChars, List.cons_append, readItem_list hstart,
      readItems_itemsChars (w :: ws) (List.cons_ne_nil w ws)]
    rfl

/-- The items of a list read back up to the closing brace. -/
theorem readItems_itemsChars (vs : List Json) (hvs : vs ≠ []) (r : List Char) :
    readItems (itemsChars vs ++ r) = some (asTexts vs, r) := by
  match vs with
  | [] => exact absurd rfl hvs
  | v :: vs =>
    have hitem := readItem_itemChars v (endsItem_itemsChars vs r)
    rw [itemsChars_cons, List.append_assoc]
    by_cases hnil : vs = []
    · rw [if_pos hnil] at hitem ⊢
      rw [readItems_of_last hitem, hnil]
      rfl
    · rw [if_neg hnil] at hitem ⊢
      rw [List.cons_append] at hitem ⊢
      rw [readItems_of_comma hitem, readItems_itemsChars vs hnil]
      · rfl
      · simp only [List.length_append, List.length_cons]
        omega

end

/-! ### Whole literals -/

theorem exists_itemsChars_eq_append (vs : List Json) : ∃ t, itemsChars vs = t ++ ['\x7d'] := by
  induction vs with
  | nil => exact ⟨[], rfl⟩
  | cons v vs ih =>
    obtain ⟨t, ht⟩ := ih
    rw [itemsChars_cons]
    split
    · exact ⟨itemChars v, rfl⟩
    · exact ⟨itemChars v ++ ',' :: t, by simp [ht]⟩

/-- A literal has its braces at the ends, so there is nothing to trim. -/
theorem trim_write (items : List Json) :
    trim (write items).toList = '\x7b' :: itemsChars items := by
  obtain ⟨t, ht⟩ := exists_itemsChars_eq_append items
  rw [write, String.toList_ofList, ht]
  refine Text.trim_eq_self ?_ ?_
  · rintro c hc
    obtain rfl := Option.some.inj hc
    rfl
  · rw [← List.cons_append, List.getLast?_concat]
    rintro c hc
    obtain rfl := Option.some.inj hc
    rfl

theorem parse?_write (items : List Json) : parse? (write items) = some (asTexts items) := by
  rw [parse?, trim_write]
  rcases items with - | ⟨v, vs⟩
  · rfl
  · obtain ⟨c, t, hv, hc⟩ := exists_itemChars_eq_cons v
    have hread := readItems_itemsChars (v :: vs) (List.cons_ne_nil v vs) []
    rw [List.append_nil] at hread
    split
    · next h =>
      rw [itemsChars_cons, hv, List.cons_append] at h
      exact absurd (List.cons.inj (List.cons.inj h).2).1 hc
    · next h =>
      rw [← (List.cons.inj h).2, hread]
    · next h => exact (h _ rfl).elim

/-! ### What the reader returns -/

theorem asText_bareValue (cs : List Char) : asText (bareValue cs) = bareValue cs := by
  unfold bareValue
  dsimp only
  split <;> rfl

/-- The reader makes an item of nulls, strings and lists, as long as it does so
for the lists that are shorter. -/
theorem asText_of_readItem {cs : List Char} {r : Json × List Char}
    (ih : ∀ ds : List Char, ds.length < cs.length →
      ∀ q, readItems ds = some q → asTexts q.1 = q.1)
    (h : readItem cs = some r) : asText r.1 = r.1 := by
  unfold readItem at h
  split at h
  · cases h
  · obtain rfl := Option.some.inj h
    rfl
  · next ds _ =>
    obtain ⟨q, hq, rfl⟩ := Option.map_eq_some_iff.mp h
    show Json.arr (asTexts q.1) = .arr q.1
    rw [ih ds (by simp) q hq]
  · obtain ⟨q, -, rfl⟩ := Option.map_eq_some_iff.mp h
    rfl
  · obtain rfl := Option.some.inj h
    exact asText_bareValue _

theorem asTexts_of_readItems (cs : List Char) (r : List Json × List Char)
    (h : readItems cs = some r) : asTexts r.1 = r.1 := by
  have hitem : ∀ q, readItem cs = some q → asText q.1 = q.1 := fun q hq =>
    asText_of_readItem (fun ds hds p hp => asTexts_of_readItems ds p hp) hq
  rw [readItems_eq] at h
  split at h
  · next hv =>
    obtain rfl := Option.some.inj h
    show [asText _] = _
    rw [hitem _ hv]
  · next hv =>
    split at h
    · next hlength =>
      obtain ⟨q, hq, rfl⟩ := Option.map_eq_some_iff.mp h
      show asText _ :: asTexts q.1 = _
      rw [hitem _ hv, asTexts_of_readItems _ q hq]
    · cases h
  · cases h
termination_by cs.length

theorem asTexts_of_parse? {text : String} {items : List Json} (h : parse? text = some items) :
    asTexts items = items := by
  unfold parse? at h
  split at h
  · obtain rfl := Option.some.inj h
    rfl
  · split at h
    · next hread =>
      obtain rfl := Option.some.inj h
      exact asTexts_of_readItems _ _ hread
    · cases h
  · cases h

/-! ### Main result -/

/-- The literal of a list reads back as the texts of its items; so writing and
reading again changes nothing in a list that has been read. -/
theorem parse?_write_eq_asTexts :
    (∀ items : List Json, parse? (write items) = some (asTexts items)) ∧
      ∀ text : String, (parse? text).bind (fun items => parse? (write items)) = parse? text := by
  refine ⟨parse?_write, fun text => ?_⟩
  rcases h : parse? text with - | items
  · rfl
  · rw [Option.bind_some, parse?_write, asTexts_of_parse? h]

end ArrayLiteral

end CriteriaSql
