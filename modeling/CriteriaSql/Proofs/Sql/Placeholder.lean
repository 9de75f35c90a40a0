/-
CriteriaSql/Proofs/Sql/Placeholder.lean

The placeholders of a text that is put together from pieces.

`Numbered text ns` says that no quote is left open in the text and that its
placeholders are `ns`, from left to right.  It is kept by everything that
statements do with text: glue between two pieces adds nothing
(`Numbered.join`, `NumberedList.intercalate`), a quoted text holds no placeholder
(`numbered_write`), nor does a text without quotes and dollar signs
(`numbered_of_isBare`).
-/
import CriteriaSql.Proofs.Sql.Token

namespace CriteriaSql.Sql

/-- No quote is left open in the text, and its placeholders are `ns`. -/
structure Numbered (text : String) (ns : List Nat) : Prop where
  whole : Whole text
  placeholders_eq : placeholders text = ns

/-! ### Pieces -/

/-- A token that is a placeholder holds a dollar sign. -/
theorem number?_eq_none_of_no_dollar {t : Token} (h : '$' ∉ t.chars) : t.number? = none := by
  cases t with
  | placeholder digits => exact absurd List.mem_cons_self h
  | quoted | unclosed | word | mark => rfl

theorem placeholders_eq_nil {text : String} (h : '$' ∉ text.toList) : placeholders text = [] := by
  rw [placeholders, List.filterMap_eq_nil_iff]
  intro t ht
  apply number?_eq_none_of_no_dollar
  intro hdollar
  -- tokens have no characters but those of the text
  exact h (mem_of_mem_tokens ht hdollar)

theorem placeholders_of_isBare {text : String} (h : isBare text = true) :
    placeholders text = [] :=
  placeholders_eq_nil (no_dollar_of_isBare h)

theorem numbered_of_isBare {text : String} (h : isBare text = true) : Numbered text [] :=
  ⟨whole_of_unquoted (unquoted_of_isBare h), placeholders_of_isBare h⟩

theorem numbered_empty : Numbered "" [] :=
  numbered_of_isBare rfl

theorem numbered_write (q : Quote) (text : String) : Numbered (q.write text) [] :=
  ⟨whole_write q text, by rw [placeholders, tokens_write]; rfl⟩

theorem numbered_quoteIdent (name : String) : Numbered (Text.quoteIdent name) [] :=
  numbered_write .identifier name

theorem numbered_placeholder (n : Nat) : Numbered (placeholder n) [n] := by
  refine ⟨whole_placeholder n, ?_⟩
  rw [placeholders, tokens_placeholder]
  simp [Token.number?]

/-! ### Pieces after each other -/

/-- A text after another one that it stops. -/
theorem Numbered.append {a b : String} {ns ms : List Nat} (ha : Numbered a ns)
    (hb : Numbered b ms) (hs : Stops b) : Numbered (a ++ b) (ns ++ ms) := by
  refine ⟨ha.whole.append hb.whole hs, ?_⟩
  rw [placeholders, ha.whole.tokens_append hs, List.filterMap_append]
  show placeholders a ++ placeholders b = ns ++ ms
  rw [ha.placeholders_eq, hb.placeholders_eq]

/-- A text without placeholders at the end. -/
theorem Numbered.append_tail {a b : String} {ns : List Nat} (ha : Numbered a ns)
    (hb : Numbered b []) (hs : Stops b) : Numbered (a ++ b) ns := by
  have h := ha.append hb hs
  rwa [List.append_nil] at h

section Glue

variable {g : String}

theorem Numbered.lead {a : String} {ns : List Nat} (hg : isLead g = true) (ha : Numbered a ns) :
    Numbered (g ++ a) ns := by
  refine ⟨(sealed_of_isLead hg).append_whole ha.whole, ?_⟩
  rw [placeholders, sealed_of_isLead hg, List.filterMap_append]
  show placeholders g ++ placeholders a = ns
  rw [placeholders_of_isBare (isBare_of_isLead hg), ha.placeholders_eq, List.nil_append]

theorem Numbered.append_glue {a : String} {ns : List Nat} (ha : Numbered a ns)
    (hg : isGlue g = true) : Numbered (a ++ g) ns :=
  ha.append_tail ⟨(sealed_of_isGlue hg).whole, placeholders_of_isBare (isBare_of_isGlue hg)⟩
    (stops_of_isGlue hg)

theorem Numbered.join {a b : String} {ns ms : List Nat} (ha : Numbered a ns)
    (hg : isGlue g = true) (hb : Numbered b ms) : Numbered (a ++ g ++ b) (ns ++ ms) := by
  rw [String.append_assoc]
  exact ha.append (hb.lead (isLead_of_isGlue hg)) (stops_glue_append hg b)

end Glue

/-- A text in parentheses. -/
theorem Numbered.parens {a : String} {ns : List Nat} (ha : Numbered a ns) :
    Numbered ("(" ++ a ++ ")") ns :=
  (ha.lead rfl).append_glue rfl

/-! ### Lists of pieces -/

/-- Texts that leave no quote open, whose placeholders are `ns` when they are
read one after the other. -/
inductive NumberedList : List String → List Nat → Prop
  | nil : NumberedList [] []
  | cons {text : String} {texts : List String} {ns ms : List Nat} (hhead : Numbered text ns)
      (htail : NumberedList texts ms) : NumberedList (text :: texts) (ns ++ ms)

theorem NumberedList.append {texts texts' : List String} {ns ms : List Nat}
    (h : NumberedList texts ns) (h' : NumberedList texts' ms) :
    NumberedList (texts ++ texts') (ns ++ ms) := by
  induction h with
  | nil => exact h'
  | cons hhead _ ih =>
    rw [List.append_assoc]
    exact .cons hhead ih

theorem numberedList_map {α : Type} {text : α → String} {numbers : α → List Nat} {xs : List α}
    (h : ∀ x ∈ xs, Numbered (text x) (numbers x)) :
    NumberedList (xs.map text) (xs.flatMap numbers) := by
  induction xs with
  | nil => exact .nil
  | cons x xs ih =>
    have hxs := ih fun y hy => h y (List.mem_cons_of_mem x hy)
    rw [List.map_cons, List.flatMap_cons]
    exact .cons (h x List.mem_cons_self) hxs

/-- Texts without placeholders. -/
theorem numberedList_nil {texts : List String} (h : ∀ t ∈ texts, Numbered t []) :
    NumberedList texts [] := by
  induction texts with
  | nil => exact .nil
  | cons t texts ih =>
    have htexts := ih fun u hu => h u (List.mem_cons_of_mem t hu)
    exact .cons (h t List.mem_cons_self) htexts

/-- Placeholders with the numbers from `n` on. -/
theorem numberedList_placeholders (n k : Nat) :
    NumberedList ((List.range k).map fun i => placeholder (n + i)) (List.range' n k) := by
  have hone : ∀ i ∈ List.range k, Numbered (placeholder (n + i)) [n + i] := by
    intro i _
    exact numbered_placeholder (n + i)
  have hall := numberedList_map hone
  rwa [← List.map_eq_flatMap, ← List.range'_eq_map_range] at hall

/-- The placeholders of texts that are joined are those of the texts, in
order. -/
theorem NumberedList.intercalate {g : String} (hg : isGlue g = true) {texts : List String}
    {ns : List Nat} (h : NumberedList texts ns) : Numbered (g.intercalate texts) ns := by
  induction h with
  | nil => exact numbered_empty
  | @cons text texts ns ms hhead htail ih =>
    -- glue stands before every text but the first one
    cases htail with
    | nil =>
      rw [String.intercalate_singleton, List.append_nil]
      exact hhead
    | cons _ _ =>
      rw [String.intercalate_cons_cons]
      exact hhead.join hg ih

end CriteriaSql.Sql
