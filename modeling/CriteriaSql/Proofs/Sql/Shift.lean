/-
CriteriaSql/Proofs/Sql/Shift.lean

Text with other numbers for its placeholders.

`shift k text` reads the tokens of a text and writes them again, with `k` added
to the number of every placeholder.  A quoted token is written as it was, so
what looks like a placeholder in a name or a literal stays.  Text without
placeholders does not change (`Numbered.shift_eq`), and the shift goes into the
pieces of a text wherever its tokens do: over glue, into parentheses and into
lists (`Whole.shift_glue_append`, `Whole.shift_parens`, `shift_intercalate`).
-/
import CriteriaSql.Proofs.Sql.Placeholder

namespace CriteriaSql.Sql

/-! ### The shift -/

/-- A token with `k` added to its number, when it is a placeholder. -/
def Token.shift (k : Nat) (t : Token) : Token :=
  match t.number? with
  | some n => .placeholder (Nat.toDigits 10 (n + k))
  | none => t

/-- A text with `k` added to the numbers of its placeholders. -/
def shift (k : Nat) (text : String) : String :=
  String.ofList ((tokens text).flatMap fun t => (t.shift k).chars)

theorem shift_eq_of_tokens {k : Nat} {text text' : String}
    (h : (tokens text).map (Token.shift k) = tokens text') : shift k text = text' := by
  rw [shift, ← List.flatMap_map, h, chars_tokens, String.ofList_toList]

/-- A text without placeholders is the same for every shift. -/
theorem shift_eq_self {text : String} (h : placeholders text = []) (k : Nat) :
    shift k text = text := by
  rw [placeholders, List.filterMap_eq_nil_iff] at h
  have hsame : ∀ t ∈ tokens text, t.shift k = id t := by
    intro t ht
    rw [Token.shift, h t ht]
    rfl
  apply shift_eq_of_tokens
  rw [List.map_congr_left hsame, List.map_id]

theorem Numbered.shift_eq {text : String} (h : Numbered text []) (k : Nat) :
    shift k text = text :=
  shift_eq_self h.placeholders_eq k

theorem shift_placeholder (k n : Nat) : shift k (placeholder n) = placeholder (n + k) := by
  apply shift_eq_of_tokens
  rw [tokens_placeholder, tokens_placeholder]
  simp [Token.shift, Token.number?]

/-! ### Pieces -/

theorem shift_of_tokens_append {k : Nat} {a b : String} (h : tokens (a ++ b) = tokens a ++ tokens b) :
    shift k (a ++ b) = shift k a ++ shift k b := by
  rw [shift, h, List.flatMap_append, String.ofList_append, shift, shift]

theorem Whole.shift_append {a b : String} (ha : Whole a) (hb : Stops b) (k : Nat) :
    shift k (a ++ b) = shift k a ++ shift k b :=
  shift_of_tokens_append (ha.tokens_append hb)

theorem Sealed.shift_append {a : String} (ha : Sealed a) (b : String) (k : Nat) :
    shift k (a ++ b) = shift k a ++ shift k b :=
  shift_of_tokens_append (ha b)

/-- Glue between two pieces stays. -/
theorem Whole.shift_glue_append {g : String} (hg : isGlue g = true) {a : String} (ha : Whole a)
    (b : String) (k : Nat) : shift k (a ++ g ++ b) = shift k a ++ g ++ shift k b := by
  rw [(ha.append_glue hg).shift_append, ha.shift_append (stops_of_isGlue hg),
    (numbered_of_isBare (isBare_of_isGlue hg)).shift_eq]

/-- Parentheses around a piece stay. -/
theorem Whole.shift_parens {a : String} (ha : Whole a) (k : Nat) :
    shift k ("(" ++ a ++ ")") = "(" ++ shift k a ++ ")" := by
  have hopen : Sealed "(" := sealed_of_isLead rfl
  have hclose : Stops ")" := stops_of_isGlue rfl
  have hleft : Numbered "(" [] := numbered_of_isBare rfl
  have hright : Numbered ")" [] := numbered_of_isBare rfl
  rw [(hopen.append_whole ha).shift_append hclose, hopen.shift_append, hleft.shift_eq,
    hright.shift_eq]

/-- Joined texts are shifted one by one. -/
theorem shift_intercalate {g : String} (hg : isGlue g = true) {texts : List String}
    (h : ∀ t ∈ texts, Whole t) (k : Nat) :
    shift k (g.intercalate texts) = g.intercalate (texts.map (shift k)) := by
  induction texts with
  | nil => exact numbered_empty.shift_eq k
  | cons t texts ih =>
    obtain ⟨ht, h⟩ := List.forall_mem_cons.mp h
    cases texts with
    | nil => rw [List.map_singleton, String.intercalate_singleton, String.intercalate_singleton]
    | cons u texts =>
      rw [String.intercalate_cons_cons, ht.shift_glue_append hg, ih h, List.map_cons, List.map_cons,
        List.map_cons, String.intercalate_cons_cons]

end CriteriaSql.Sql
