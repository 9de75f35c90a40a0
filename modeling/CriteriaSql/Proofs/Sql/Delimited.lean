/-
CriteriaSql/Proofs/Sql/Delimited.lean

A quoted text is one token.

The rule of SQL for a token between quotes is stated without the writer
(`Reads`): two quotes in a row are a quote of the text, a single one ends the
token, and every other character stands for itself, the backslash too.  A
written text is passed over as a whole, whatever follows it
(`inside_doubled_append_iff`), so the token does not end before the last quote
that was written, and ends there unless another follows.

Main result: names and literals are each one token (`quoted_oneToken`).
-/
import CriteriaSql.Proofs.Sql.Token

namespace CriteriaSql

namespace Text.Delimited

/-! ### The rule -/

/-- The rule for what is behind the first quote: the text of the token, and what
is left behind its last quote. -/
inductive Inside (quote : Char) : List Char → List Char → List Char → Prop
  | single {rest} : rest.head? ≠ some quote → Inside quote (quote :: rest) [] rest
  | double {cs text rest} : Inside quote cs text rest →
      Inside quote (quote :: quote :: cs) (quote :: text) rest
  | other {c cs text rest} : c ≠ quote → Inside quote cs text rest →
      Inside quote (c :: cs) (c :: text) rest

/-- The rule for a token at the front: its text, and what is left behind it. -/
inductive Reads (quote : Char) : List Char → List Char → List Char → Prop
  | opened {cs text rest} : Inside quote cs text rest → Reads quote (quote :: cs) text rest

variable {quote : Char} {cs text rest tail : List Char}

theorem reads_cons_iff {c : Char} :
    Reads quote (c :: cs) text rest ↔ c = quote ∧ Inside quote cs text rest := by
  constructor
  · rintro ⟨h⟩
    exact ⟨rfl, h⟩
  · rintro ⟨rfl, h⟩
    exact .opened h

theorem inside_single_iff (htail : tail.head? ≠ some quote) :
    Inside quote (quote :: tail) text rest ↔ text = [] ∧ rest = tail := by
  constructor
  · intro h
    cases h with
    | single => exact ⟨rfl, rfl⟩
    | double => exact absurd rfl htail
    | other hc => exact absurd rfl hc
  · rintro ⟨rfl, rfl⟩
    exact .single htail

theorem inside_double_iff :
    Inside quote (quote :: quote :: cs) text rest
      ↔ ∃ text', text = quote :: text' ∧ Inside quote cs text' rest := by
  constructor
  · intro h
    cases h with
    | single hrest => exact absurd rfl hrest
    | double h => exact ⟨_, rfl, h⟩
    | other hc => exact absurd rfl hc
  · rintro ⟨text', rfl, h⟩
    exact .double h

theorem inside_other_iff {c : Char} (hc : c ≠ quote) :
    Inside quote (c :: cs) text rest ↔ ∃ text', text = c :: text' ∧ Inside quote cs text' rest := by
  constructor
  · intro h
    cases h with
    | single => exact absurd rfl hc
    | double => exact absurd rfl hc
    | other _ h => exact ⟨_, rfl, h⟩
  · rintro ⟨text', rfl, h⟩
    exact .other hc h

/-! ### Written texts -/

/-- A written text is passed over as a whole, whatever follows it. -/
theorem inside_doubled_append_iff :
    Inside quote (doubled quote cs ++ tail) text rest
      ↔ ∃ more, text = cs ++ more ∧ Inside quote tail more rest := by
  induction cs generalizing text with
  | nil => simp [doubled]
  | cons c cs ih =>
    have hstep : Inside quote (doubled quote (c :: cs) ++ tail) text rest
        ↔ ∃ text', text = c :: text' ∧ Inside quote (doubled quote cs ++ tail) text' rest := by
      by_cases hc : c = quote
      · subst hc
        rw [doubled, if_pos rfl, List.cons_append, List.cons_append, inside_double_iff]
      · rw [doubled, if_neg hc, List.cons_append, inside_other_iff hc]
    rw [hstep]
    constructor
    · rintro ⟨text', rfl, h⟩
      obtain ⟨more, rfl, hmore⟩ := ih.mp h
      exact ⟨more, rfl, hmore⟩
    · rintro ⟨more, rfl, h⟩
      exact ⟨cs ++ more, rfl, ih.mpr ⟨more, rfl, h⟩⟩

theorem reads_write_append_iff :
    Reads quote (write quote cs ++ tail) text rest
      ↔ ∃ more, text = cs ++ more ∧ Inside quote (quote :: tail) more rest := by
  rw [write, List.cons_append, reads_cons_iff, List.append_assoc, inside_doubled_append_iff]
  simp

/-- In front of anything but another quote, the written text and nothing else is
read. -/
theorem reads_write_append_iff_eq (htail : tail.head? ≠ some quote) :
    Reads quote (write quote cs ++ tail) text rest ↔ text = cs ∧ rest = tail := by
  simp only [reads_write_append_iff, inside_single_iff htail]
  constructor
  · rintro ⟨more, rfl, rfl, rfl⟩
    exact ⟨List.append_nil cs, rfl⟩
  · rintro ⟨rfl, rfl⟩
    exact ⟨[], (List.append_nil text).symm, rfl, rfl⟩

theorem Inside.suffix_tail (h : Inside quote cs text rest) : rest <:+ cs.tail := by
  induction h with
  | single => exact List.suffix_rfl
  | double _ ih => exact (ih.trans (List.tail_suffix _)).trans (List.suffix_cons _ _)
  | other _ _ ih => exact ih.trans (List.tail_suffix _)

/-- Whatever follows a written text, its token is not over before. -/
theorem suffix_of_reads_write_append (h : Reads quote (write quote cs ++ tail) text rest) :
    rest <:+ tail := by
  obtain ⟨more, -, hmore⟩ := reads_write_append_iff.mp h
  exact hmore.suffix_tail

theorem write_injective (quote : Char) : Function.Injective (write quote) := by
  intro cs ds h
  have hread : Reads quote (write quote cs ++ []) cs [] :=
    (reads_write_append_iff_eq (by simp)).mpr ⟨rfl, rfl⟩
  rw [h] at hread
  exact ((reads_write_append_iff_eq (by simp)).mp hread).1

end Text.Delimited

/-! ### Main result -/

namespace Sql

open Text (quoteIdent quoteLiteral)
open Text.Delimited (Reads)

/-- A way to write texts between quotes of a kind makes each text one token:

* in front of anything but another quote, the rule of SQL reads the text and
  leaves what follows, and there is no other reading;
* there the token is that of the text, and the next one begins behind it;
* whatever follows, no token that begins with the written text ends within it;
* different texts are written differently. -/
structure OneToken (q : Quote) (write : String → String) : Prop where
  reads_iff : ∀ s t : String, t.toList.head? ≠ some q.char → ∀ text rest,
    Reads q.char (write s ++ t).toList text rest ↔ text = s.toList ∧ rest = t.toList
  tokens_eq : ∀ s t : String, t.toList.head? ≠ some q.char →
    tokens (write s ++ t) = .quoted q s.toList :: tokens t
  not_within : ∀ (s t : String) (text rest : List Char),
    Reads q.char (write s ++ t).toList text rest → rest <:+ t.toList
  injective : Function.Injective write

theorem toList_write_append (q : Quote) (s t : String) :
    (q.write s ++ t).toList = Text.Delimited.write q.char s.toList ++ t.toList := by
  rw [String.toList_append, Quote.write, String.toList_ofList]

theorem oneToken_write (q : Quote) : OneToken q q.write where
  reads_iff s t ht text rest := by
    rw [toList_write_append]
    exact Text.Delimited.reads_write_append_iff_eq ht
  tokens_eq s t ht := tokens_write_append q s ht
  not_within s t text rest h := by
    rw [toList_write_append] at h
    exact Text.Delimited.suffix_of_reads_write_append h
  injective s s' h := by
    have hlist : Text.Delimited.write q.char s.toList = Text.Delimited.write q.char s'.toList :=
      String.ofList_injective h
    exact String.toList_inj.mp (Text.Delimited.write_injective q.char hlist)

/-- Delimited identifiers and string literals are each one token, whatever the
text. -/
theorem quoted_oneToken : OneToken .identifier quoteIdent ∧ OneToken .literal quoteLiteral :=
  ⟨oneToken_write .identifier, oneToken_write .literal⟩

/-- A name of two quotes in front of a dot, and a literal of a backslash and its
own quote in front of the other quote. -/
theorem quoted_oneToken_quotes :
    Reads '"' (quoteIdent "\"\"" ++ ".x").toList ['"', '"'] ['.', 'x']
    ∧ tokens (quoteLiteral "\\'" ++ "\"") = .quoted .literal ['\\', '\''] :: tokens "\"" := by
  obtain ⟨hname, hliteral⟩ := quoted_oneToken
  exact ⟨(hname.reads_iff "\"\"" ".x" (by decide) _ _).mpr ⟨rfl, rfl⟩,
    hliteral.tokens_eq "\\'" "\"" (by decide)⟩

end Sql

end CriteriaSql
