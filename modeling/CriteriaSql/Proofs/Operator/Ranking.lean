/-
CriteriaSql/Proofs/Operator/Ranking.lean

Which operation an operator text names.

The names that occur in a text are ranked by the length of their operator and
then by their own (`rank`).  The fold over the registered names keeps the best
one so far and gives way only to a better one, so that it ends with the first of
the best (`foldl_better`, `foremost_of_argmax`).  The outcome depends on the text
only through the names that occur in it (`resolve_congr`): more text can only add
names, and neither the case of ASCII letters nor blanks at the ends add or hide
one.

Main result: `resolve_foremost`.
-/
import CriteriaSql.Operator
import CriteriaSql.Proofs.Text.Occurrence
import Mathlib.Data.List.MinMax
import Mathlib.Data.Prod.Lex

namespace CriteriaSql.Operation

open Text (isBlank trim lowercase asciiLowercase)

/-! ### Names in a text -/

/-- The name occurs in an operator text: somewhere in its lower-case form,
without the blanks at its ends. -/
def Occurs (name text : String) : Prop :=
  name.toList <:+: lowercase (trim text.toList)

theorem occursIn_iff {name cs : List Char} : occursIn name cs = true ↔ name <:+: cs := by
  induction cs with
  | nil => rw [occursIn, List.isEmpty_iff, List.infix_nil]
  | cons c cs ih =>
    rw [occursIn, Bool.or_eq_true, List.isPrefixOf_iff_prefix, ih, List.infix_cons_iff]

instance (name text : String) : Decidable (Occurs name text) :=
  decidable_of_iff _ occursIn_iff

theorem isAscii_of_mem {r : String × Operation} (hr : r ∈ registered) :
    Text.IsAscii r.1.toList := by
  revert r
  decide

variable {name text : String}

/-- More text around a text does not hide a name. -/
theorem Occurs.append (hname : Text.IsAscii name.toList) (h : Occurs name text)
    (before after : String) : Occurs name (before ++ text ++ after) := by
  refine Text.infix_lowercase_append hname ?_ h
  rw [String.toList_append, String.toList_append, List.append_assoc]
  exact Text.infix_trim_append _ _ _

theorem occurs_append_blanks_iff {before after : String}
    (hbefore : ∀ c ∈ before.toList, isBlank c = true)
    (hafter : ∀ c ∈ after.toList, isBlank c = true) :
    Occurs name (before ++ text ++ after) ↔ Occurs name text := by
  rw [Occurs, String.toList_append, String.toList_append, List.append_assoc,
    Text.trim_append_blanks hbefore _ hafter, Occurs]

theorem occurs_ascii_iff (hname : Text.IsAscii name.toList) {text' : String}
    (h : asciiLowercase text.toList = asciiLowercase text'.toList) :
    Occurs name text ↔ Occurs name text' := by
  apply Text.infix_lowercase_ascii_iff hname
  rw [Text.asciiLowercase_trim, h, Text.asciiLowercase_trim]

/-! ### Ranks -/

/-- The length of the operator, and then that of the name. -/
def rank (r : String × Operation) : ℕ ×ₗ ℕ :=
  toLex (r.2.operator.length, r.1.length)

theorem beats_iff {a b : String × Operation} : beats a b = true ↔ rank b < rank a := by
  rw [rank, rank, Prod.Lex.toLex_lt_toLex, beats, Bool.or_eq_true, Bool.and_eq_true,
    decide_eq_true_eq, decide_eq_true_eq, beq_iff_eq, eq_comm (a := a.2.operator.length)]

/-- The fold finds the first of the best names. -/
theorem foldl_better (rs : List (String × Operation)) :
    rs.foldl better none = rs.argmax rank := by
  have hbetter : better = List.argAux fun b c => rank c < rank b := by
    funext best next
    rcases best with - | b
    · rfl
    · simp only [better, beats_iff, List.argAux]
  rw [hbetter, List.argmax]

/-! ### The foremost name -/

/-- The first of the items with the greatest value: those before it have a
lower one, and those after it none that is higher. -/
theorem exists_split_of_argmax {α β : Type} [LinearOrder β] {f : α → β} {xs : List α} {m : α}
    (h : xs.argmax f = some m) : ∃ before after, xs = before ++ m :: after
      ∧ (∀ a ∈ before, f a < f m) ∧ ∀ a ∈ after, f a ≤ f m := by
  induction xs using List.reverseRecOn generalizing m with
  | nil => cases h
  | append_singleton xs x ih =>
    rw [List.argmax_concat] at h
    rcases hxs : xs.argmax f with - | c
    · rw [hxs] at h
      obtain rfl := Option.some.inj h
      rw [List.argmax_eq_none.mp hxs]
      exact ⟨[], [], rfl, nofun, nofun⟩
    · rw [hxs] at h
      dsimp only at h
      split at h
      · next hlt =>
        -- the last item is better than all before it
        obtain rfl := Option.some.inj h
        exact ⟨xs, [], rfl, fun a ha => (List.le_of_mem_argmax ha hxs).trans_lt hlt, nofun⟩
      · next hnot =>
        obtain rfl := Option.some.inj h
        obtain ⟨before, after, rfl, hbefore, hafter⟩ := ih hxs
        refine ⟨before, after ++ [x], by simp, hbefore, ?_⟩
        exact List.forall_mem_append.mpr ⟨hafter, List.forall_mem_singleton.mpr (not_lt.mp hnot)⟩

/-- The registered name that occurs in a text with the greatest rank, the
earliest of these: names registered before it that occur have a lower rank, and
those after it none that is higher. -/
def Foremost (text : String) (r : String × Operation) : Prop :=
  ∃ before after, registered = before ++ r :: after ∧ Occurs r.1 text
    ∧ (∀ q ∈ before, Occurs q.1 text → rank q < rank r)
    ∧ ∀ q ∈ after, Occurs q.1 text → rank q ≤ rank r

namespace Foremost

variable {r : String × Operation}

theorem mem (h : Foremost text r) : r ∈ registered := by
  obtain ⟨before, after, hsplit, -⟩ := h
  rw [hsplit]
  exact List.mem_append_right _ List.mem_cons_self

theorem occurs (h : Foremost text r) : Occurs r.1 text := by
  obtain ⟨before, after, -, hoccurs, -⟩ := h
  exact hoccurs

theorem rank_le (h : Foremost text r) {q : String × Operation} (hq : q ∈ registered)
    (hoccurs : Occurs q.1 text) : rank q ≤ rank r := by
  obtain ⟨before, after, hsplit, -, hbefore, hafter⟩ := h
  rw [hsplit, List.mem_append, List.mem_cons] at hq
  rcases hq with hq | rfl | hq
  · exact (hbefore q hq hoccurs).le
  · exact le_rfl
  · exact hafter q hq hoccurs

end Foremost

theorem mem_candidates_iff {r : String × Operation} :
    r ∈ candidates (lowercase (trim text.toList)) ↔ r ∈ registered ∧ Occurs r.1 text := by
  rw [candidates, List.mem_filter, occursIn_iff, Occurs]

/-- The best candidate is the foremost name: the names left out do not occur. -/
theorem foremost_of_argmax {r : String × Operation}
    (h : (candidates (lowercase (trim text.toList))).argmax rank = some r) :
    Foremost text r := by
  obtain ⟨before, after, hsplit, hbefore, hafter⟩ := exists_split_of_argmax h
  obtain ⟨front, back, hregistered, rfl, hback⟩ := List.filter_eq_append_iff.mp hsplit
  obtain ⟨middle, rest, rfl, hmiddle, hr, rfl⟩ := List.filter_eq_cons_iff.mp hback
  refine ⟨front ++ middle, rest, ?_, occursIn_iff.mp hr, ?_, ?_⟩
  · rw [hregistered, List.append_assoc]
  · intro q hq hoccurs
    rcases List.mem_append.mp hq with hq | hq
    · exact hbefore q (List.mem_filter.mpr ⟨hq, occursIn_iff.mpr hoccurs⟩)
    · exact absurd (occursIn_iff.mpr hoccurs) (hmiddle q hq)
  · intro q hq hoccurs
    exact hafter q (List.mem_filter.mpr ⟨hq, occursIn_iff.mpr hoccurs⟩)

/-! ### Resolving -/

/-- The operation of the best candidate; a blank text has none. -/
theorem resolve_eq (text : String) : resolve text =
    (((candidates (lowercase (trim text.toList))).argmax rank).map Prod.snd).getD equality := by
  unfold resolve
  dsimp only
  split
  · next h =>
    rw [List.isEmpty_iff.mp h]
    decide
  · rw [foldl_better]
    cases (candidates (lowercase (trim text.toList))).argmax rank <;> rfl

/-- A text in which a name occurs names the operation of the foremost one. -/
theorem exists_foremost (h : ∃ q ∈ registered, Occurs q.1 text) :
    ∃ r, Foremost text r ∧ resolve text = r.2 := by
  obtain ⟨q, hq⟩ := h
  rcases hmax : (candidates (lowercase (trim text.toList))).argmax rank with - | r
  · have hnil := List.argmax_eq_none.mp hmax
    exact absurd (mem_candidates_iff.mpr hq) (hnil ▸ List.not_mem_nil)
  · refine ⟨r, foremost_of_argmax hmax, ?_⟩
    rw [resolve_eq, hmax]
    rfl

theorem resolve_of_not_occurs (h : ∀ r ∈ registered, ¬Occurs r.1 text) :
    resolve text = ⟨"=", some .equality⟩ := by
  have hnil : candidates (lowercase (trim text.toList)) = [] := by
    rw [List.eq_nil_iff_forall_not_mem]
    intro r hr
    obtain ⟨hmem, hoccurs⟩ := mem_candidates_iff.mp hr
    exact h r hmem hoccurs
  rw [resolve_eq, hnil]
  rfl

/-- Texts in which the same names occur name the same operation. -/
theorem resolve_congr {text' : String}
    (h : ∀ r ∈ registered, Occurs r.1 text ↔ Occurs r.1 text') :
    resolve text = resolve text' := by
  have hcandidates : candidates (lowercase (trim text.toList))
      = candidates (lowercase (trim text'.toList)) := by
    apply List.filter_congr
    intro r hr
    rw [Bool.eq_iff_iff, occursIn_iff, occursIn_iff]
    exact h r hr
  rw [resolve_eq, hcandidates, resolve_eq]

/-! ### Main result -/

/-- An operator text names the operation of the registered name that occurs in
it with the longest operator, of these with the longest name, and of these the
earliest; when no name occurs, it names equality.  More text around it never
lowers the rank of what is named, and neither the case of ASCII letters nor
blanks at the ends make a difference. -/
theorem resolve_foremost (text : String) :
    ((∃ q ∈ registered, Occurs q.1 text) → ∃ r, Foremost text r ∧ resolve text = r.2)
      ∧ ((∀ q ∈ registered, ¬Occurs q.1 text) → resolve text = ⟨"=", some .equality⟩)
      ∧ (∀ before after, (∃ q ∈ registered, Occurs q.1 text) →
        ∃ r r', Foremost text r ∧ resolve text = r.2
          ∧ Foremost (before ++ text ++ after) r' ∧ resolve (before ++ text ++ after) = r'.2
          ∧ rank r ≤ rank r')
      ∧ (∀ text', asciiLowercase text'.toList = asciiLowercase text.toList →
        resolve text' = resolve text)
      ∧ (∀ before after, (∀ c ∈ before.toList, isBlank c = true) →
        (∀ c ∈ after.toList, isBlank c = true) →
        resolve (before ++ text ++ after) = resolve text) := by
  refine ⟨exists_foremost, resolve_of_not_occurs, ?_, ?_, ?_⟩
  · intro before after h
    obtain ⟨r, hr, hresolve⟩ := exists_foremost h
    -- the name that is foremost in the text is a candidate in the longer text too
    have hlonger : Occurs r.1 (before ++ text ++ after) :=
      hr.occurs.append (isAscii_of_mem hr.mem) before after
    obtain ⟨r', hr', hresolve'⟩ := exists_foremost ⟨r, hr.mem, hlonger⟩
    exact ⟨r, r', hr, hresolve, hr', hresolve', hr'.rank_le hr.mem hlonger⟩
  · intro text' h
    exact resolve_congr fun r hr => occurs_ascii_iff (isAscii_of_mem hr) h
  · intro before after hbefore hafter
    exact resolve_congr fun r _ => occurs_append_blanks_iff hbefore hafter

/-- A name by itself, in a longer name, in capitals and between blanks; and a
text without a name. -/
theorem resolve_foremost_like :
    (∃ r, Foremost "like" r ∧ resolve "like" = r.2)
      ∧ (∃ r r', Foremost "like" r ∧ resolve "like" = r.2
        ∧ Foremost ("not i" ++ "like" ++ " x") r' ∧ resolve ("not i" ++ "like" ++ " x") = r'.2
        ∧ rank r ≤ rank r')
      ∧ resolve "LiKe" = resolve "like"
      ∧ resolve ("\t" ++ "like" ++ " ") = resolve "like"
      ∧ resolve "frobnicate" = ⟨"=", some .equality⟩ := by
  obtain ⟨hbest, -, hlonger, hcase, hblanks⟩ := resolve_foremost "like"
  obtain ⟨-, hnone, -⟩ := resolve_foremost "frobnicate"
  have hoccurs : ∃ q ∈ registered, Occurs q.1 "like" := by decide +kernel
  have hmissing : ∀ q ∈ registered, ¬Occurs q.1 "frobnicate" := by decide +kernel
  have htab : ∀ c ∈ "\t".toList, isBlank c = true := List.all_eq_true.mp (by decide)
  have hspace : ∀ c ∈ " ".toList, isBlank c = true := List.all_eq_true.mp (by decide)
  exact ⟨hbest hoccurs, hlonger "not i" " x" hoccurs, hcase "LiKe" (by decide),
    hblanks "\t" " " htab hspace, hnone hmissing⟩

end CriteriaSql.Operation
