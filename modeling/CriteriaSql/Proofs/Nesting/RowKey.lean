/-
CriteriaSql/Proofs/Nesting/RowKey.lean

What the key of a row says about its key columns: there is none when all of
them are null or missing (`rowKey_eq_none_iff`), and otherwise it is the text of
their values, which tells scalars apart (`keyText_inj`).

Main result: rows that hold scalars in their key columns have one key exactly
when they hold the same scalars (`Schema.rowKey_identifies`).
-/
import CriteriaSql.Nesting.Decompose
import CriteriaSql.Proofs.Json.ScalarText

namespace CriteriaSql

namespace Schema

/-! ### Rows without a key -/

/-- All key columns of the row are null or missing. -/
def lacksKey (pk : List String) (row : Row) : Bool :=
  pk.all fun column => (row.getD column).isNull

theorem lacksKey_eq_all (pk : List String) (row : Row) :
    lacksKey pk row = (pk.map row.getD).all Json.isNull := by
  rw [lacksKey, List.all_map]
  rfl

/-- A row has a key as soon as one of its values is not null. -/
theorem lacksKey_eq_false {pk : List String} {row : Row} {v : Json}
    (hv : v ∈ pk.map row.getD) (hnull : v ≠ .null) : lacksKey pk row = false := by
  rw [lacksKey_eq_all, List.all_eq_false]
  refine ⟨v, hv, ?_⟩
  cases v <;> simp_all [Json.isNull]

/-- The text of the values of a key: of the value alone where there is one. -/
def keyText : List Json → String
  | [value] => value.text
  | values => (Json.arr values).text

theorem rowKey_eq (pk : List String) (row : Row) :
    rowKey pk row = if lacksKey pk row then none else some (keyText (pk.map row.getD)) := by
  unfold rowKey
  dsimp only
  rw [← lacksKey_eq_all]
  generalize pk.map row.getD = values
  split
  · rfl
  · rcases values with - | ⟨v, - | ⟨w, values⟩⟩ <;> rfl

theorem rowKey_eq_none_iff {pk : List String} {row : Row} :
    rowKey pk row = none ↔ lacksKey pk row = true := by
  rw [rowKey_eq]
  split <;> simp_all

theorem rowKey_eq_some_iff {pk : List String} {row : Row} {key : String} :
    rowKey pk row = some key ↔ lacksKey pk row = false ∧ keyText (pk.map row.getD) = key := by
  rw [rowKey_eq]
  split <;> simp_all

/-! ### Keys that are the same -/

/-- The text of one scalar is not that of a list. -/
theorem text_ne_arr {v : Json} (hv : v.IsScalar) (vs : List Json) :
    v.text ≠ (Json.arr vs).text := by
  intro h
  obtain ⟨c, cs, hcons, hc, -⟩ := hv.exists_chars_eq_cons
  have htext : v.chars = (Json.arr vs).chars := String.ofList_injective h
  rw [hcons, Json.chars] at htext
  exact hc (List.cons.inj htext).1

/-- The text of scalars tells them from all others, however many they are. -/
theorem keyText_inj {vs ws : List Json} (hvs : ∀ v ∈ vs, v.IsScalar)
    (hws : ∀ w ∈ ws, w.IsScalar) (h : keyText vs = keyText ws) : vs = ws := by
  unfold keyText at h
  split at h <;> split at h
  · next _ v _ w =>
    have htext : v.chars = w.chars := String.ofList_injective h
    rw [(hvs v List.mem_cons_self).chars_inj (hws w List.mem_cons_self) htext]
  · exact absurd h (text_ne_arr (hvs _ List.mem_cons_self) ws)
  · exact absurd h.symm (text_ne_arr (hws _ List.mem_cons_self) vs)
  · have htext : Json.itemChars vs = Json.itemChars ws :=
      (List.cons.inj (String.ofList_injective h)).2
    exact Json.itemChars_inj hvs hws htext

/-! ### What a key identifies -/

theorem getD_eq_null_iff {row : Row} {column : String} :
    row.getD column = .null ↔ row.get? column = none ∨ row.get? column = some .null := by
  rw [Members.getD]
  rcases row.get? column with - | v <;> simp

theorem lacksKey_iff {pk : List String} {row : Row} :
    lacksKey pk row = true ↔ ∀ column ∈ pk, row.getD column = .null := by
  have hnull : ∀ v : Json, v.isNull = true ↔ v = .null := by
    intro v
    cases v <;> simp [Json.isNull]
  simp only [lacksKey, List.all_eq_true, hnull]

/-- Rows of scalars have one key, at whatever levels, when they have the same
values, and only then. -/
theorem exists_rowKey_eq_some_iff {pk pk' : List String} {a b : Row}
    (ha : ∀ column ∈ pk, (a.getD column).IsScalar) (hb : ∀ column ∈ pk', (b.getD column).IsScalar) :
    (∃ key, rowKey pk a = some key ∧ rowKey pk' b = some key)
      ↔ rowKey pk a ≠ none ∧ pk.map a.getD = pk'.map b.getD := by
  constructor
  · rintro ⟨key, hkey, hkey'⟩
    refine ⟨by rw [hkey]; exact Option.some_ne_none key, ?_⟩
    obtain ⟨-, rfl⟩ := rowKey_eq_some_iff.mp hkey
    obtain ⟨-, htext⟩ := rowKey_eq_some_iff.mp hkey'
    apply keyText_inj _ _ htext.symm
    · simpa using ha
    · simpa using hb
  · rintro ⟨hsome, hvalues⟩
    obtain ⟨key, hkey⟩ := Option.ne_none_iff_exists'.mp hsome
    refine ⟨key, hkey, ?_⟩
    -- a key is made of the values alone
    rw [rowKey_eq_some_iff, lacksKey_eq_all, ← hvalues, ← lacksKey_eq_all]
    exact rowKey_eq_some_iff.mp hkey

/-- A key identifies the values of its columns.  Rows that hold scalars there
have the same key exactly when one of them has a key and their values are
equal column by column; a row has no key exactly when all of its values are
null or missing.  A key is not shared with another level either, unless the
values of both are the same list. -/
theorem rowKey_identifies (s : Schema) {a b : Row}
    (ha : ∀ column ∈ s.pk, (a.getD column).IsScalar)
    (hb : ∀ column ∈ s.pk, (b.getD column).IsScalar) :
    ((∃ key, rowKey s.pk a = some key ∧ rowKey s.pk b = some key)
        ↔ rowKey s.pk a ≠ none ∧ ∀ column ∈ s.pk, a.getD column = b.getD column)
      ∧ (rowKey s.pk a = none
        ↔ ∀ column ∈ s.pk, a.get? column = none ∨ a.get? column = some .null)
      ∧ ∀ (t : Schema) (c : Row), (∀ column ∈ t.pk, (c.getD column).IsScalar) →
        ((∃ key, rowKey s.pk a = some key ∧ rowKey t.pk c = some key)
          ↔ rowKey s.pk a ≠ none ∧ s.pk.map a.getD = t.pk.map c.getD) := by
  refine ⟨?_, ?_, fun t c hc => exists_rowKey_eq_some_iff ha hc⟩
  · rw [exists_rowKey_eq_some_iff ha hb, List.map_inj_left]
  · rw [rowKey_eq_none_iff, lacksKey_iff]
    simp only [getD_eq_null_iff]

/-- A level with a key of two columns. -/
def nameAndTag : Schema :=
  Schema.keyed ["name", "tag"]

/-- A name that holds quotes and a comma, and no tag. -/
def quotedRow : Row :=
  [("name", .str "a\",\"b")]

/-- A name and a tag. -/
def taggedRow : Row :=
  [("name", .str "a"), ("tag", .str "b")]

/-- Quotes and a comma in one column do not make the key of two columns. -/
theorem rowKey_identifies_quotes :
    (∀ column ∈ nameAndTag.pk, (quotedRow.getD column).IsScalar)
      ∧ (∀ column ∈ nameAndTag.pk, (taggedRow.getD column).IsScalar)
      ∧ ¬∃ key, rowKey nameAndTag.pk quotedRow = some key
        ∧ rowKey nameAndTag.pk taggedRow = some key := by
  have ha : ∀ column ∈ nameAndTag.pk, (quotedRow.getD column).IsScalar := by
    simp only [nameAndTag, Schema.keyed, List.forall_mem_cons]
    exact ⟨.str _, .null, fun _ h => absurd h List.not_mem_nil⟩
  have hb : ∀ column ∈ nameAndTag.pk, (taggedRow.getD column).IsScalar := by
    simp only [nameAndTag, Schema.keyed, List.forall_mem_cons]
    exact ⟨.str _, .str _, fun _ h => absurd h List.not_mem_nil⟩
  refine ⟨ha, hb, ?_⟩
  rw [(rowKey_identifies nameAndTag ha hb).1]
  rintro ⟨-, hequal⟩
  have hname : Json.str "a\",\"b" = .str "a" := hequal "name" List.mem_cons_self
  exact absurd (Json.str.inj hname) (by decide)

end Schema

end CriteriaSql
