/-
CriteriaSql/Proofs/Sql/Parentheses.lean

How the parentheses of a text match.

`depth` follows the number of open parentheses over tokens; it fails where one
is closed that is not open, and at a comma outside of all of them.  A text is
*self-contained* when it begins and ends at depth zero: it can be put in any
place where one operand is expected, and what stands around it is left as it
is.  `nests` reads tokens into a forest, in which every pair of parentheses is
one node, and `items` takes a list apart at its commas.

Main results: the forest of texts that are put together is put together from
their forests (`nests_append`, `nests_parens`), every self-contained text has a
forest (`SelfContained.exists_nests`), and a list of self-contained texts has
one item for each (`listItems_intercalate`).
-/
import CriteriaSql.Proofs.Sql.Token

namespace CriteriaSql.Sql

/-! ### Depth -/

/-- The number of open parentheses after a token. -/
def deepen (d : Nat) (t : Token) : Option Nat :=
  if t = .mark '(' then some (d + 1)
  else if t = .mark ')' then if d = 0 then none else some (d - 1)
  else if t = .mark ',' ∧ d = 0 then none
  else some d

/-- The number of open parentheses after tokens, if none is closed that is not
open and no comma stands outside of all of them. -/
def depth (d : Nat) (ts : List Token) : Option Nat :=
  ts.foldlM deepen d

/-- All parentheses match, and no comma stands outside of them. -/
def SelfContained (text : String) : Prop :=
  depth 0 (tokens text) = some 0

instance (text : String) : Decidable (SelfContained text) :=
  inferInstanceAs (Decidable (depth 0 (tokens text) = some 0))

/-- A token that changes no depth and separates nothing. -/
def Token.isNeutral (t : Token) : Bool :=
  t ≠ .mark '(' && t ≠ .mark ')' && t ≠ .mark ','

theorem deepen_of_isNeutral {t : Token} (h : t.isNeutral = true) (d : Nat) :
    deepen d t = some d := by
  simp only [Token.isNeutral, Bool.and_eq_true, decide_eq_true_eq] at h
  obtain ⟨⟨hopen, hclose⟩, hcomma⟩ := h
  rw [deepen, if_neg hopen, if_neg hclose, if_neg fun hc => hcomma hc.1]

theorem depth_append (d : Nat) (ts us : List Token) :
    depth d (ts ++ us) = (depth d ts).bind fun d' => depth d' us :=
  List.foldlM_append

theorem depth_of_isNeutral {ts : List Token} (h : ∀ t ∈ ts, t.isNeutral = true) (d : Nat) :
    depth d ts = some d := by
  induction ts with
  | nil => rfl
  | cons t ts ih =>
    rw [depth, List.foldlM_cons, deepen_of_isNeutral (h t List.mem_cons_self)]
    exact ih fun u hu => h u (List.mem_cons_of_mem t hu)

/-! ### Nesting -/

/-- A token that is no parenthesis, or a pair of parentheses and what stands
inside. -/
inductive Nest where
  | token (t : Token)
  | parens (inside : List Nest)

/-- Read one token.  The first frame is what has been read inside the innermost
open parenthesis, the last one what stands outside of all. -/
def nestStep (frames : List (List Nest)) (t : Token) : Option (List (List Nest)) :=
  if t = .mark '(' then some ([] :: frames)
  else if t = .mark ')' then
    match frames with
    | inside :: outside :: frames => some ((outside ++ [.parens inside]) :: frames)
    | _ => none
  else
    match frames with
    | inside :: frames => some ((inside ++ [.token t]) :: frames)
    | [] => none

/-- The forest of tokens whose parentheses match. -/
def nests (ts : List Token) : Option (List Nest) :=
  match ts.foldlM nestStep [[]] with
  | some [f] => some f
  | _ => none

theorem nests_eq_some_iff {ts : List Token} {f : List Nest} :
    nests ts = some f ↔ ts.foldlM nestStep [[]] = some [f] := by
  unfold nests
  constructor
  · intro h
    split at h
    · next g hg =>
      obtain rfl := Option.some.inj h
      exact hg
    · cases h
  · intro h
    rw [h]

/-- What has been read before stays below the frames that are being read. -/
def underneath (f : List Nest) (below : List (List Nest)) : List (List Nest) → List (List Nest)
  | [] => below
  | [g] => (f ++ g) :: below
  | g :: h :: frames => g :: underneath f below (h :: frames)

/-- A token is read in the same way whatever has been read before. -/
theorem nestStep_underneath (f : List Nest) (below : List (List Nest)) {t : Token}
    {frames frames' : List (List Nest)} (h : nestStep frames t = some frames')
    (hne : frames ≠ []) :
    nestStep (underneath f below frames) t = some (underneath f below frames')
      ∧ frames' ≠ [] := by
  unfold nestStep at h ⊢
  by_cases hopen : t = .mark '('
  · rw [if_pos hopen] at h ⊢
    obtain rfl := Option.some.inj h
    refine ⟨?_, List.cons_ne_nil _ _⟩
    rcases frames with - | ⟨g, frames⟩
    · exact absurd rfl hne
    · rfl
  · rw [if_neg hopen] at h ⊢
    by_cases hclose : t = .mark ')'
    · rw [if_pos hclose] at h ⊢
      -- the frame outside of the pair is the last one, or has others below
      rcases frames with - | ⟨g, - | ⟨g', - | ⟨g'', frames⟩⟩⟩
      · cases h
      · cases h
      all_goals
        obtain rfl := Option.some.inj h
        refine ⟨?_, List.cons_ne_nil _ _⟩
        simp only [underneath, List.append_assoc]
    · rw [if_neg hclose] at h ⊢
      rcases frames with - | ⟨g, - | ⟨g', frames⟩⟩
      · cases h
      all_goals
        obtain rfl := Option.some.inj h
        refine ⟨?_, List.cons_ne_nil _ _⟩
        simp only [underneath, List.append_assoc]

theorem foldlM_nestStep_underneath (f : List Nest) (below : List (List Nest)) {ts : List Token}
    {frames frames' : List (List Nest)} (h : ts.foldlM nestStep frames = some frames')
    (hne : frames ≠ []) :
    ts.foldlM nestStep (underneath f below frames) = some (underneath f below frames') := by
  -- there is always a frame, so that what lies below it is out of reach
  induction ts generalizing frames with
  | nil =>
    obtain rfl := Option.some.inj h
    rfl
  | cons t ts ih =>
    rw [List.foldlM_cons] at h
    obtain ⟨next, hnext, h⟩ := Option.bind_eq_some_iff.mp h
    obtain ⟨hstep, hne'⟩ := nestStep_underneath f below hnext hne
    rw [List.foldlM_cons, hstep]
    exact ih h hne'

/-- A forest is read as a whole, after anything and inside anything. -/
theorem foldlM_nestStep_of_nests {ts : List Token} {f : List Nest} (h : nests ts = some f)
    (before : List Nest) (below : List (List Nest)) :
    ts.foldlM nestStep (before :: below) = some ((before ++ f) :: below) := by
  have hread := foldlM_nestStep_underneath before below (nests_eq_some_iff.mp h)
    (List.cons_ne_nil [] [])
  rw [underneath, underneath, List.append_nil] at hread
  exact hread

theorem nests_append {ts us : List Token} {f g : List Nest} (hf : nests ts = some f)
    (hg : nests us = some g) : nests (ts ++ us) = some (f ++ g) := by
  rw [nests_eq_some_iff, List.foldlM_append, nests_eq_some_iff.mp hf]
  exact foldlM_nestStep_of_nests hg f []

/-- A pair of parentheses is one node. -/
theorem nests_parens {ts : List Token} {f : List Nest} (h : nests ts = some f) :
    nests (.mark '(' :: ts ++ [.mark ')']) = some [.parens f] := by
  rw [nests_eq_some_iff, List.cons_append, List.foldlM_cons]
  -- inside the pair a new frame is read, above the empty one outside
  show List.foldlM nestStep [[], []] (ts ++ [.mark ')']) = _
  rw [List.foldlM_append, foldlM_nestStep_of_nests h [] [[]]]
  rfl

/-- A token that is neither parenthesis. -/
def Token.isFlat (t : Token) : Bool :=
  t ≠ .mark '(' && t ≠ .mark ')'

theorem nests_of_isFlat {ts : List Token} (h : ∀ t ∈ ts, t.isFlat = true) :
    nests ts = some (ts.map Nest.token) := by
  -- no frame is opened: all tokens go into the one that is there
  have hread : ∀ before : List Nest,
      ts.foldlM nestStep [before] = some [before ++ ts.map Nest.token] := by
    induction ts with
    | nil => exact fun before => by rw [List.map_nil, List.append_nil]; rfl
    | cons t ts ih =>
      intro before
      have ht := h t List.mem_cons_self
      simp only [Token.isFlat, Bool.and_eq_true, decide_eq_true_eq] at ht
      have hstep : nestStep [before] t = some [before ++ [.token t]] := by
        unfold nestStep
        rw [if_neg ht.1, if_neg ht.2]
      rw [List.foldlM_cons, hstep, List.map_cons]
      show List.foldlM nestStep [before ++ [.token t]] ts = _
      rw [ih fun u hu => h u (List.mem_cons_of_mem t hu), List.append_assoc]
      rfl
  rw [nests_eq_some_iff]
  exact hread []

/-- Parentheses that match by their depth are read to the end. -/
theorem exists_foldlM_nestStep {ts : List Token} {d d' : Nat} (h : depth d ts = some d')
    {frames : List (List Nest)} (hlen : frames.length = d + 1) :
    ∃ frames', ts.foldlM nestStep frames = some frames' ∧ frames'.length = d' + 1 := by
  induction ts generalizing d frames with
  | nil =>
    obtain rfl := Option.some.inj h
    exact ⟨frames, rfl, hlen⟩
  | cons t ts ih =>
    rw [depth, List.foldlM_cons] at h
    obtain ⟨e, he, h⟩ := Option.bind_eq_some_iff.mp h
    -- one frame is open for each parenthesis, and one stands outside of all
    have hstep : ∃ next, nestStep frames t = some next ∧ next.length = e + 1 := by
      rcases frames with - | ⟨g, frames⟩
      · cases hlen
      · unfold deepen at he
        unfold nestStep
        by_cases hopen : t = .mark '('
        · rw [if_pos hopen] at he ⊢
          obtain rfl := Option.some.inj he
          exact ⟨_, rfl, by rw [List.length_cons, hlen]⟩
        · rw [if_neg hopen] at he ⊢
          by_cases hclose : t = .mark ')'
          · rw [if_pos hclose] at he ⊢
            obtain ⟨hd, he⟩ := Option.ite_none_left_eq_some.mp he
            obtain rfl := Option.some.inj he
            rcases frames with - | ⟨g', frames⟩
            · exact absurd (Nat.succ.inj hlen).symm hd
            · refine ⟨_, rfl, ?_⟩
              simp only [List.length_cons] at hlen ⊢
              omega
          · rw [if_neg hclose] at he ⊢
            obtain ⟨-, he⟩ := Option.ite_none_left_eq_some.mp he
            obtain rfl := Option.some.inj he
            exact ⟨_, rfl, hlen⟩
    obtain ⟨next, hnext, hnextlen⟩ := hstep
    obtain ⟨frames', hread, hlen'⟩ := ih h hnextlen
    refine ⟨frames', ?_, hlen'⟩
    rw [List.foldlM_cons, hnext]
    exact hread

theorem SelfContained.exists_nests {text : String} (h : SelfContained text) :
    ∃ f, nests (tokens text) = some f := by
  obtain ⟨frames, hread, hlen⟩ :=
    exists_foldlM_nestStep h (show [([] : List Nest)].length = 0 + 1 from rfl)
  obtain ⟨f, rfl⟩ := List.length_eq_one_iff.mp hlen
  exact ⟨f, nests_eq_some_iff.mpr hread⟩

/-! ### Forests of texts -/

/-- No quote is left open in the text, and its forest is `f`. -/
structure Nested (text : String) (f : List Nest) : Prop where
  whole : Whole text
  nests_eq : nests (tokens text) = some f

/-- The forest of a text without parentheses. -/
def flat (text : String) : List Nest :=
  (tokens text).map Nest.token

/-- The text has no parentheses. -/
def isFlat (text : String) : Bool :=
  (tokens text).all Token.isFlat

theorem nested_flat {text : String} (hw : Whole text) (h : isFlat text = true) :
    Nested text (flat text) :=
  ⟨hw, nests_of_isFlat (List.all_eq_true.mp h)⟩

theorem nested_of_unquoted {text : String} (h : Unquoted text ∧ isFlat text = true) :
    Nested text (flat text) :=
  nested_flat (whole_of_unquoted h.1) h.2

theorem Nested.unique {text : String} {f g : List Nest} (hf : Nested text f)
    (hg : Nested text g) : f = g :=
  Option.some.inj (hf.nests_eq.symm.trans hg.nests_eq)

theorem Nested.parens {a : String} {f : List Nest} (ha : Nested a f) :
    Nested ("(" ++ a ++ ")") [.parens f] := by
  have hopen : isLead "(" = true := rfl
  have hclose : isGlue ")" = true := rfl
  have hwhole : Whole ("(" ++ a) := (sealed_of_isLead hopen).append_whole ha.whole
  refine ⟨(hwhole.append_glue hclose).whole, ?_⟩
  rw [hwhole.tokens_append_glue hclose, sealed_of_isLead hopen]
  exact nests_parens ha.nests_eq

theorem Nested.join {a b g : String} {f f' : List Nest} (ha : Nested a f)
    (hg : isGlue g = true) (hflat : isFlat g = true) (hb : Nested b f') :
    Nested (a ++ g ++ b) (f ++ flat g ++ f') := by
  refine ⟨ha.whole.glue_append hg hb.whole, ?_⟩
  rw [ha.whole.tokens_glue_append hg]
  exact nests_append (nests_append ha.nests_eq (nests_of_isFlat (List.all_eq_true.mp hflat)))
    hb.nests_eq

/-- The forest of texts that are joined is that of the texts, joined. -/
theorem nested_intercalate {g : String} (hg : isGlue g = true) (hflat : isFlat g = true)
    {α : Type} {text : α → String} {forest : α → List Nest} {xs : List α}
    (h : ∀ x ∈ xs, Nested (text x) (forest x)) :
    Nested (g.intercalate (xs.map text)) ((flat g).intercalate (xs.map forest)) := by
  induction xs with
  | nil => exact nested_of_unquoted (show Unquoted "" ∧ isFlat "" = true by decide)
  | cons x xs ih =>
    have hx : Nested (text x) (forest x) := h x List.mem_cons_self
    have hxs := ih fun y hy => h y (List.mem_cons_of_mem x hy)
    cases xs with
    | nil =>
      rw [List.map_singleton, List.map_singleton, String.intercalate_singleton,
        List.intercalate_singleton]
      exact hx
    | cons y ys =>
      rw [List.map_cons, List.map_cons, List.map_cons, List.map_cons,
        String.intercalate_cons_cons, List.intercalate_cons_cons]
      exact hx.join hg hflat hxs

/-! ### Lists -/

/-- The number of open parentheses after a token of any text. -/
def level (d : Nat) (t : Token) : Nat :=
  if t = .mark '(' then d + 1 else if t = .mark ')' then d - 1 else d

/-- Put a list before the first of others. -/
def putBefore {α : Type} (xs : List α) : List (List α) → List (List α)
  | [] => [xs]
  | ys :: rest => (xs ++ ys) :: rest

theorem putBefore_ne_nil {α : Type} (xs : List α) (yss : List (List α)) :
    putBefore xs yss ≠ [] := by
  cases yss with
  | nil => exact List.cons_ne_nil _ _
  | cons ys rest => exact List.cons_ne_nil _ _

theorem putBefore_nil {α : Type} {yss : List (List α)} (h : yss ≠ []) : putBefore [] yss = yss := by
  cases yss with
  | nil => exact absurd rfl h
  | cons ys rest => rfl

theorem putBefore_putBefore {α : Type} (xs ys : List α) {zss : List (List α)} (h : zss ≠ []) :
    putBefore xs (putBefore ys zss) = putBefore (xs ++ ys) zss := by
  cases zss with
  | nil => exact absurd rfl h
  | cons zs rest => rw [putBefore, putBefore, putBefore, List.append_assoc]

/-- The tokens between the commas that stand outside of all parentheses. -/
def items (d : Nat) : List Token → List (List Token)
  | [] => [[]]
  | t :: ts =>
    if t = .mark ',' ∧ d = 0 then [] :: items d ts else putBefore [t] (items (level d t) ts)

/-- The tokens of a text, without blanks. -/
def words (text : String) : List Token :=
  (tokens text).filter (· ≠ .mark ' ')

/-- The items of a list. -/
def listItems (text : String) : List (List Token) :=
  items 0 (words text)

theorem level_of_deepen {d d' : Nat} {t : Token} (h : deepen d t = some d') : level d t = d' := by
  unfold deepen at h
  unfold level
  by_cases hopen : t = .mark '('
  · rw [if_pos hopen] at h ⊢
    exact Option.some.inj h
  · rw [if_neg hopen] at h ⊢
    by_cases hclose : t = .mark ')'
    · rw [if_pos hclose] at h ⊢
      exact Option.some.inj (Option.ite_none_left_eq_some.mp h).2
    · rw [if_neg hclose] at h ⊢
      exact Option.some.inj (Option.ite_none_left_eq_some.mp h).2

theorem items_ne_nil (d : Nat) (ts : List Token) : items d ts ≠ [] := by
  cases ts with
  | nil => exact List.cons_ne_nil _ _
  | cons t ts =>
    unfold items
    split
    · exact List.cons_ne_nil _ _
    · exact putBefore_ne_nil _ _

/-- Tokens with a depth stay in one item. -/
theorem items_append {d d' : Nat} {ts : List Token} (h : depth d ts = some d') (us : List Token) :
    items d (ts ++ us) = putBefore ts (items d' us) := by
  induction ts generalizing d with
  | nil =>
    obtain rfl := Option.some.inj h
    exact (putBefore_nil (items_ne_nil d us)).symm
  | cons t ts ih =>
    rw [depth, List.foldlM_cons] at h
    obtain ⟨e, he, h⟩ := Option.bind_eq_some_iff.mp h
    -- a comma that separates would have no depth
    have hcomma : ¬(t = .mark ',' ∧ d = 0) := by
      rintro ⟨rfl, rfl⟩
      cases he
    rw [List.cons_append, items, if_neg hcomma, level_of_deepen he, ih h]
    exact putBefore_putBefore [t] ts (items_ne_nil d' us)

/-- Blanks change no depth. -/
theorem depth_words (d : Nat) (ts : List Token) :
    depth d (ts.filter (· ≠ .mark ' ')) = depth d ts := by
  induction ts generalizing d with
  | nil => rfl
  | cons t ts ih =>
    by_cases hblank : t = .mark ' '
    · subst hblank
      rw [List.filter_cons_of_neg (by simp), ih, depth, depth, List.foldlM_cons,
        deepen_of_isNeutral (by decide)]
      rfl
    · rw [List.filter_cons_of_pos (by simpa using hblank), depth, depth, List.foldlM_cons,
        List.foldlM_cons]
      rcases deepen d t with - | e
      · rfl
      · exact ih e

theorem listItems_of_selfContained {text : String} (h : SelfContained text) :
    listItems text = [words text] := by
  have hdepth : depth 0 (words text) = some 0 := (depth_words 0 (tokens text)).trans h
  have hitems := items_append hdepth []
  rw [List.append_nil] at hitems
  rw [listItems, hitems, items, putBefore, List.append_nil]

/-- A self-contained text at the front of a list is its first item. -/
theorem listItems_cons {a : String} (ha : Whole a) (h : SelfContained a) (b : String) :
    listItems (a ++ ", " ++ b) = words a :: listItems b := by
  have hcomma : isGlue ", " = true := rfl
  have hdepth : depth 0 (words a) = some 0 := (depth_words 0 (tokens a)).trans h
  -- the blank after the comma is no word
  have hwords : words (a ++ ", " ++ b) = words a ++ .mark ',' :: words b := by
    rw [words, ha.tokens_glue_append hcomma, List.filter_append, List.filter_append,
      List.append_assoc]
    rfl
  rw [listItems, hwords, items_append hdepth, items, if_pos ⟨rfl, rfl⟩, putBefore,
    List.append_nil]
  rfl

/-- Self-contained texts at the front of a list are one item each. -/
theorem listItems_intercalate {texts : List String} (hw : ∀ t ∈ texts, Whole t)
    (h : ∀ t ∈ texts, SelfContained t) (hne : texts ≠ []) (rest : List String) :
    listItems (", ".intercalate (texts ++ rest))
      = texts.map words ++ if rest.isEmpty then [] else listItems (", ".intercalate rest) := by
  induction texts with
  | nil => exact absurd rfl hne
  | cons t texts ih =>
    have htw : Whole t := hw t List.mem_cons_self
    have ht : SelfContained t := h t List.mem_cons_self
    cases texts with
    | nil =>
      cases rest with
      | nil =>
        rw [List.append_nil, String.intercalate_singleton, listItems_of_selfContained ht]
        rfl
      | cons r rest =>
        rw [List.singleton_append, String.intercalate_cons_cons, listItems_cons htw ht]
        rfl
    | cons u us =>
      have hrest := ih (fun v hv => hw v (List.mem_cons_of_mem t hv))
        (fun v hv => h v (List.mem_cons_of_mem t hv)) (List.cons_ne_nil u us)
      rw [List.cons_append, List.cons_append, String.intercalate_cons_cons,
        listItems_cons htw ht, ← List.cons_append, hrest]
      rfl

end CriteriaSql.Sql
