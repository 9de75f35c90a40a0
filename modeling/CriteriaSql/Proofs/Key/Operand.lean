/-
CriteriaSql/Proofs/Key/Operand.lean

The tokens of the expressions that keys render to.

Without its cast such an expression is made of quoted tokens, the marks of the
path operators and the digits of a position: `PlainText` says that, and
`plainText_followPath` that following a path keeps it.  A cast adds a type
name, which is whole and holds no placeholder, whatever the cast is
(`numbered_typeName`).  Hence no expression of a key holds a placeholder
(`numbered_field`, `numbered_bodyField`).

A type name may hold parentheses and commas, though: the expressions of a key
are self-contained exactly when its cast is (`selfContained_field_iff`,
`selfContained_bodyField_iff`).
-/
import CriteriaSql.Key.Parser
import CriteriaSql.Proofs.Sql.Parentheses
import CriteriaSql.Proofs.Sql.Placeholder

namespace CriteriaSql.Sql

/-! ### Plain text -/

/-- A quoted token, digits, or a mark that is neither a parenthesis nor a
comma. -/
def Token.isPlain : Token → Bool
  | quoted _ _ => true
  | word letters => letters.all fun c => !c.isAlpha
  | mark c => c ≠ '(' && c ≠ ')' && c ≠ ','
  | unclosed _ _ | placeholder _ => false

/-- Text of plain tokens, with no quote left open. -/
structure PlainText (text : String) : Prop where
  whole : Whole text
  plain : ∀ t ∈ tokens text, t.isPlain = true

theorem plainText_write (q : Quote) (text : String) : PlainText (q.write text) := by
  refine ⟨whole_write q text, ?_⟩
  intro t ht
  rw [tokens_write, List.mem_singleton] at ht
  subst ht
  rfl

theorem PlainText.join {a b g : String} (ha : PlainText a) (hg : isGlue g = true)
    (hplain : ∀ t ∈ tokens g, t.isPlain = true) (hb : PlainText b) : PlainText (a ++ g ++ b) := by
  refine ⟨ha.whole.glue_append hg hb.whole, ?_⟩
  intro t ht
  rw [ha.whole.tokens_glue_append hg, List.mem_append, List.mem_append] at ht
  rcases ht with (ht | ht) | ht
  · exact ha.plain t ht
  · exact hplain t ht
  · exact hb.plain t ht

theorem PlainText.numbered {a : String} (h : PlainText a) : Numbered a [] := by
  refine ⟨h.whole, ?_⟩
  rw [placeholders, List.filterMap_eq_nil_iff]
  intro t ht
  have hplain := h.plain t ht
  cases t with
  | placeholder digits => cases hplain
  | quoted | unclosed | word | mark => rfl

end CriteriaSql.Sql

namespace CriteriaSql.Key

open Sql (Token PlainText Unquoted Numbered Whole tokens)

/-! ### Paths -/

theorem mem_of_isPosition {text : String} (h : isPosition text = true) {c : Char}
    (hc : c ∈ text.toList) : c = '-' ∨ c.isDigit = true := by
  simp only [isPosition, Bool.and_eq_true, List.all_eq_true] at h
  obtain ⟨-, hall⟩ := h
  split at hall
  · next cs e =>
    rw [e] at hc
    rcases List.mem_cons.mp hc with rfl | hc
    · exact Or.inl rfl
    · exact Or.inr (hall c hc)
  · exact Or.inr (hall c hc)

theorem ofChar?_of_isPosition {c : Char} (h : c = '-' ∨ c.isDigit = true) :
    Sql.Quote.ofChar? c = none := by
  rcases h with rfl | h
  · rfl
  · exact Sql.ofChar?_eq_none_of_isDigit h

theorem isAlpha_eq_false_of_isDigit {c : Char} (h : c.isDigit = true) : c.isAlpha = false := by
  obtain ⟨-, hle⟩ := Bool.and_eq_true_iff.mp h
  -- the digits stand before the letters
  have hbelow : ¬ 'A'.val ≤ c.val := by
    intro hge
    exact absurd (UInt32.le_trans hge (of_decide_eq_true hle)) (by decide)
  have hupper : c.isUpper = false := decide_eq_false fun hbounds => hbelow hbounds.1
  have hlower : c.isLower = false := by
    apply Bool.and_eq_false_imp.mpr
    intro hge
    exact absurd (UInt32.le_trans (by decide) (of_decide_eq_true hge)) hbelow
  exact Bool.or_eq_false_iff.mpr ⟨hupper, hlower⟩

/-- A position is made of a minus sign and digits. -/
theorem plainText_position {text : String} (h : isPosition text = true) : PlainText text := by
  have hchar : ∀ {c}, c ∈ text.toList → c = '-' ∨ c.isDigit = true := mem_of_isPosition h
  refine ⟨Sql.whole_of_unquoted fun c hc => ofChar?_of_isPosition (hchar hc), ?_⟩
  intro t ht
  have hmem : ∀ {c}, c ∈ t.chars → c = '-' ∨ c.isDigit = true := by
    intro c hc
    exact hchar (Sql.mem_of_mem_tokens ht hc)
  cases t with
  | quoted quote content => rfl
  | unclosed quote content =>
    -- its quote would be a character of the position
    have hq := ofChar?_of_isPosition (hmem List.mem_cons_self)
    rw [Sql.Quote.ofChar?_char] at hq
    cases hq
  | placeholder digits =>
    -- and so would its dollar sign
    rcases hmem List.mem_cons_self with hc | hc <;> cases hc
  | word letters =>
    rw [Token.isPlain, List.all_eq_true]
    intro c hc
    rcases hmem hc with rfl | hd
    · rfl
    · rw [isAlpha_eq_false_of_isDigit hd]
      rfl
  | mark c =>
    rcases hmem List.mem_cons_self with rfl | hd
    · rfl
    · have hne : c ≠ '(' ∧ c ≠ ')' ∧ c ≠ ',' := by
        refine ⟨?_, ?_, ?_⟩ <;> rintro rfl <;> cases hd
      simp [Token.isPlain, hne]

/-- Following a path adds plain text to the base. -/
theorem plainText_followPath {base : String} (hb : PlainText base) (path : List Step) :
    PlainText (followPath base path) := by
  have hone : ∀ t ∈ tokens "->>", t.isPlain = true := by decide
  have hmany : ∀ t ∈ tokens "#>>", t.isPlain = true := by decide
  unfold followPath
  split
  · exact hb
  · exact hb.join rfl hone (Sql.plainText_write .literal _)
  · split
    · next hpos => exact hb.join rfl hone (plainText_position hpos)
    · exact hb.join rfl hone (Sql.plainText_write .literal _)
  · exact hb.join rfl hmany (Sql.plainText_write .literal _)

/-- The expression over the column, without the cast. -/
theorem plainText_columnPath (k : Key) :
    PlainText (followPath (Text.quoteIdent k.column) k.path) :=
  plainText_followPath (Sql.plainText_write .identifier _) k.path

theorem plainText_bodyPath (k : Key) : PlainText k.bodyPath :=
  plainText_followPath (Sql.plainText_write .identifier _) _

/-! ### Casts -/

/-- The cast is written without quotes. -/
def isBareType (type : String) : Bool :=
  !type.isEmpty && type.toList.all isTypeChar

theorem typeName_of_isBareType {type : String} (h : isBareType type = true) :
    typeName type = type :=
  if_pos h

theorem typeName_of_not_isBareType {type : String} (h : isBareType type = false) :
    typeName type = Text.quoteIdent type := by
  rw [typeName, if_neg]
  intro hbare
  rw [isBareType, hbare] at h
  cases h

theorem ofChar?_of_isTypeChar {c : Char} (h : isTypeChar c = true) : Sql.Quote.ofChar? c = none := by
  have h₁ : c ≠ '"' := by rintro rfl; cases h
  have h₂ : c ≠ '\'' := by rintro rfl; cases h
  rw [Sql.Quote.ofChar?, if_neg h₁, if_neg h₂]

theorem mem_isBareType {type : String} (h : isBareType type = true) {c : Char}
    (hc : c ∈ type.toList) : isTypeChar c = true := by
  rw [isBareType, Bool.and_eq_true, List.all_eq_true] at h
  exact h.2 c hc

/-- A type name is whole and holds no placeholder. -/
theorem numbered_typeName (type : String) : Numbered (typeName type) [] := by
  rcases h : isBareType type with - | -
  · rw [typeName_of_not_isBareType h]
    exact Sql.numbered_quoteIdent type
  · rw [typeName_of_isBareType h]
    apply Sql.numbered_of_isBare
    rw [Sql.isBare, List.all_eq_true]
    intro c hc
    have htype := mem_isBareType h hc
    have hdollar : c ≠ '$' := by rintro rfl; cases htype
    simp [ofChar?_of_isTypeChar htype, hdollar]

theorem numbered_applyCast {expression : String} (he : Numbered expression []) (wrap : Bool)
    (cast : Option String) : Numbered (applyCast expression wrap cast) [] := by
  cases cast with
  | none => exact he
  | some type =>
    have hleft : Sql.isLead "(" = true := rfl
    have hright : Sql.isGlue ")::" = true := rfl
    have hcast : Sql.isGlue "::" = true := rfl
    cases wrap with
    | true => exact (he.lead hleft).join hright (numbered_typeName type)
    | false => exact he.join hcast (numbered_typeName type)

/-! ### Expressions -/

/-- The expression over the column of the key's name holds no placeholder. -/
theorem numbered_field (k : Key) : Numbered k.field [] :=
  numbered_applyCast (plainText_columnPath k).numbered k.isJson k.cast

/-- The expression over the body holds no placeholder. -/
theorem numbered_bodyField (k : Key) : Numbered k.bodyField [] :=
  numbered_applyCast (plainText_bodyPath k).numbered true k.cast

/-! ### Parentheses -/

open Sql (SelfContained depth)

/-- A cast that is written without quotes is self-contained. -/
def CastContained (k : Key) : Prop :=
  ∀ type ∈ k.cast, isBareType type = true → SelfContained type

instance (k : Key) : Decidable k.CastContained :=
  inferInstanceAs (Decidable (∀ type ∈ k.cast, isBareType type = true → SelfContained type))

theorem isNeutral_of_isPlain {t : Token} (h : t.isPlain = true) : t.isNeutral = true := by
  cases t with
  | mark c =>
    simp only [Token.isPlain, Bool.and_eq_true, decide_eq_true_eq] at h
    simp [Token.isNeutral, h]
  | quoted | unclosed | placeholder | word => simp [Token.isNeutral]

theorem depth_of_plainText {text : String} (h : PlainText text) (d : Nat) :
    depth d (tokens text) = some d :=
  Sql.depth_of_isNeutral (fun t ht => isNeutral_of_isPlain (h.plain t ht)) d

theorem isFlat_of_plainText {text : String} (h : PlainText text) : Sql.isFlat text = true := by
  rw [Sql.isFlat, List.all_eq_true]
  intro t ht
  have hneutral := isNeutral_of_isPlain (h.plain t ht)
  rw [Token.isNeutral, Bool.and_eq_true] at hneutral
  exact hneutral.1

theorem nested_of_plainText {text : String} (h : PlainText text) :
    Sql.Nested text (Sql.flat text) :=
  Sql.nested_flat h.whole (isFlat_of_plainText h)

theorem selfContained_typeName_iff (type : String) :
    SelfContained (typeName type) ↔ (isBareType type = true → SelfContained type) := by
  rcases h : isBareType type with - | -
  · rw [typeName_of_not_isBareType h]
    have hquoted : SelfContained (Text.quoteIdent type) :=
      depth_of_plainText (Sql.plainText_write .identifier type) 0
    exact iff_of_true hquoted fun hbare => nomatch hbare
  · rw [typeName_of_isBareType h]
    exact ⟨fun htype _ => htype, fun htype => htype rfl⟩

/-- What stands before the cast is self-contained, so that the cast decides. -/
theorem selfContained_applyCast_iff {expression : String} (he : PlainText expression)
    (wrap : Bool) (cast : Option String) :
    SelfContained (applyCast expression wrap cast)
      ↔ ∀ type ∈ cast, isBareType type = true → SelfContained type := by
  cases cast with
  | none => exact iff_of_true (depth_of_plainText he 0) fun _ h => nomatch h
  | some type =>
    have hleft : Sql.isLead "(" = true := rfl
    have hright : Sql.isGlue ")::" = true := rfl
    have hcast : Sql.isGlue "::" = true := rfl
    have hbefore : SelfContained (applyCast expression wrap (some type))
        ↔ SelfContained (typeName type) := by
      unfold SelfContained
      cases wrap with
      | true =>
        have hopen : Whole ("(" ++ expression) := (Sql.sealed_of_isLead hleft).append_whole he.whole
        rw [applyCast, if_pos rfl, hopen.tokens_glue_append hright, Sql.sealed_of_isLead hleft,
          Sql.depth_append, Sql.depth_append, Sql.depth_append]
        -- inside the parenthesis the expression changes no depth either
        show (((some 1).bind fun d => depth d (tokens expression)).bind fun d =>
          depth d (tokens ")::")).bind _ = _ ↔ _
        rw [Option.bind_some, depth_of_plainText he 1]
        exact Iff.rfl
      | false =>
        rw [applyCast, if_neg (by decide), he.whole.tokens_glue_append hcast, Sql.depth_append,
          Sql.depth_append, depth_of_plainText he 0]
        exact Iff.rfl
    rw [hbefore, selfContained_typeName_iff]
    constructor
    · rintro h type' ⟨⟩
      exact h
    · intro h
      exact h type rfl

/-- The expression over the column of the key's name is self-contained exactly
when the cast is. -/
theorem selfContained_field_iff (k : Key) : SelfContained k.field ↔ k.CastContained :=
  selfContained_applyCast_iff (plainText_columnPath k) k.isJson k.cast

/-- The expression over the body is self-contained exactly when the cast is. -/
theorem selfContained_bodyField_iff (k : Key) : SelfContained k.bodyField ↔ k.CastContained :=
  selfContained_applyCast_iff (plainText_bodyPath k) true k.cast

end CriteriaSql.Key
