/-
CriteriaSql/Proofs/Sql/Words.lean

The words of a text: its tokens, blanks left out.

`Worded text ws` says that no quote is left open in the text and that its words
are `ws`.  Like the forest of a text, the words of a text are put together from
those of its pieces (`Worded.join`, `worded_intercalate`); a name in quotes, a
placeholder and a text of letters, digits and underscores are one word each.
-/
import CriteriaSql.Proofs.Sql.Parentheses
import Mathlib.Data.List.Forall2

namespace CriteriaSql.Sql

/-! ### Words of texts -/

/-- No quote is left open in the text, and its tokens without blanks are `ws`. -/
structure Worded (text : String) (ws : List Token) : Prop where
  whole : Whole text
  words_eq : words text = ws

theorem worded_of_isBare {text : String} {ws : List Token} (h : isBare text = true)
    (hwords : words text = ws) : Worded text ws :=
  ⟨whole_of_unquoted (unquoted_of_isBare h), hwords⟩

theorem words_append_of_sealed {a : String} (ha : Sealed a) (b : String) :
    words (a ++ b) = words a ++ words b := by
  rw [words, ha, List.filter_append]
  rfl

theorem Worded.words_append {a b : String} {ws : List Token} (ha : Worded a ws) (hs : Stops b) :
    words (a ++ b) = ws ++ words b := by
  rw [words, ha.whole.tokens_append hs, List.filter_append]
  exact congrArg (· ++ words b) ha.words_eq

/-- A text after another one that it stops. -/
theorem Worded.append {a b : String} {ws us : List Token} (ha : Worded a ws) (hb : Worded b us)
    (hs : Stops b) : Worded (a ++ b) (ws ++ us) := by
  refine ⟨ha.whole.append hb.whole hs, ?_⟩
  rw [ha.words_append hs, hb.words_eq]

section Glue

variable {g : String} {gs : List Token} (hwords : words g = gs)
include hwords

theorem Worded.lead {a : String} {ws : List Token} (hg : isLead g = true) (ha : Worded a ws) :
    Worded (g ++ a) (gs ++ ws) := by
  refine ⟨(sealed_of_isLead hg).append_whole ha.whole, ?_⟩
  rw [words_append_of_sealed (sealed_of_isLead hg), ha.words_eq, hwords]

theorem Worded.append_glue {a : String} {ws : List Token} (ha : Worded a ws)
    (hg : isGlue g = true) : Worded (a ++ g) (ws ++ gs) :=
  ha.append (worded_of_isBare (isBare_of_isGlue hg) hwords) (stops_of_isGlue hg)

theorem Worded.join {a b : String} {ws us : List Token} (ha : Worded a ws)
    (hg : isGlue g = true) (hb : Worded b us) : Worded (a ++ g ++ b) (ws ++ gs ++ us) := by
  rw [String.append_assoc, List.append_assoc]
  exact ha.append (hb.lead hwords (isLead_of_isGlue hg)) (stops_glue_append hg b)

/-- The words of texts that are joined are those of the texts, joined. -/
theorem worded_intercalate (hg : isGlue g = true) {texts : List String}
    {wss : List (List Token)} (h : List.Forall₂ Worded texts wss) :
    Worded (g.intercalate texts) (gs.intercalate wss) := by
  induction h with
  | nil => exact worded_of_isBare rfl rfl
  | cons hhead htail ih =>
    -- glue stands before every text but the first one
    cases htail with
    | nil =>
      rw [String.intercalate_singleton, List.intercalate_singleton]
      exact hhead
    | cons _ _ =>
      rw [String.intercalate_cons_cons, List.intercalate_cons_cons]
      exact hhead.join hwords hg ih

end Glue

/-- A text in parentheses. -/
theorem Worded.parens {a : String} {ws : List Token} (ha : Worded a ws) :
    Worded ("(" ++ a ++ ")") (.mark '(' :: (ws ++ [.mark ')'])) := by
  have hopen : words "(" = [.mark '('] := by decide
  have hclose : words ")" = [.mark ')'] := by decide
  exact (ha.lead hopen rfl).append_glue hclose rfl

/-- What holds of all items of a list holds of two lists that are made of it. -/
theorem forall₂_map {α β γ : Type} {r : β → γ → Prop} {f : α → β} {g : α → γ} {xs : List α}
    (h : ∀ x ∈ xs, r (f x) (g x)) : List.Forall₂ r (xs.map f) (xs.map g) :=
  List.forall₂_map_left_iff.mpr (List.forall₂_map_right_iff.mpr (List.forall₂_same.mpr h))

/-! ### Single tokens -/

/-- The token of a name. -/
def nameToken (name : String) : Token := .quoted .identifier name.toList

/-- The token of a placeholder. -/
def numberToken (n : Nat) : Token := .placeholder (Nat.toDigits 10 n)

theorem worded_quoteIdent (name : String) : Worded (Text.quoteIdent name) [nameToken name] := by
  refine ⟨whole_write .identifier name, ?_⟩
  show words (Quote.identifier.write name) = _
  rw [words, tokens_write]
  rfl

theorem worded_placeholder (n : Nat) : Worded (placeholder n) [numberToken n] := by
  refine ⟨whole_placeholder n, ?_⟩
  rw [words, tokens_placeholder]
  rfl

/-- The rest of a word. -/
theorem tokensFrom_word (letters : List Char) {cs : List Char}
    (h : ∀ c ∈ cs, isWordChar c = true) :
    tokensFrom (.word letters) cs = [.word (letters ++ cs)] := by
  induction cs generalizing letters with
  | nil => rw [List.append_nil]; rfl
  | cons c cs ih =>
    obtain ⟨hc, hcs⟩ := List.forall_mem_cons.mp h
    have hon : (Reading.word letters).extend? c = some (.word (letters ++ [c])) := if_pos hc
    rw [tokensFrom_cons_of_extend hon, ih _ hcs, List.append_assoc, List.singleton_append]

/-- Characters of words form one word. -/
theorem worded_word {text : String} (hne : text ≠ "") (h : ∀ c ∈ text.toList, isWordChar c = true) :
    Worded text [.word text.toList] := by
  have hquote : ∀ c, isWordChar c = true → Quote.ofChar? c = none ∧ c ≠ '$' := by
    intro c hc
    have hd : c ≠ '"' := by rintro rfl; cases hc
    have hs : c ≠ '\'' := by rintro rfl; cases hc
    refine ⟨by rw [Quote.ofChar?, if_neg hd, if_neg hs], ?_⟩
    rintro rfl
    cases hc
  refine ⟨whole_of_unquoted fun c hc => (hquote c (h c hc)).1, ?_⟩
  have htokens : tokens text = [.word text.toList] := by
    rw [tokens]
    rcases e : text.toList with - | ⟨c, cs⟩
    · exact absurd (String.toList_eq_nil_iff.mp e) hne
    · obtain ⟨hc, hcs⟩ := List.forall_mem_cons.mp (e ▸ h)
      have hstart : Reading.start c = .word [c] := by
        rw [Reading.start, (hquote c hc).1]
        exact (if_neg (hquote c hc).2).trans (if_pos hc)
      rw [tokensFrom, Reading.extend?, Reading.finish, Reading.single, hstart]
      exact tokensFrom_word [c] hcs
  rw [words, htokens]
  rfl

end CriteriaSql.Sql
