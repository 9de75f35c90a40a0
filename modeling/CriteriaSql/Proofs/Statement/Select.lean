/-
CriteriaSql/Proofs/Statement/Select.lean

The placeholders of queries.

The filter has the first ones, and the comparison with the page before those
that follow; nothing else in a query has any.  `Select.Numbered` says so of a
finished query, `numbered_ofJson` that queries are built so, and `Numbered.sql`
and `Numbered.count` what it means for the two texts of a query.
-/
import CriteriaSql.Proofs.Statement.Pieces

namespace CriteriaSql

open Sql (NumberedList Stops isBare isGlue isLead)

namespace Select

/-! ### The page -/

theorem numbered_tuple {texts : List String} {ns : List Nat} (h : NumberedList texts ns) :
    Sql.Numbered (tuple texts) ns := by
  have hcomma : isGlue ", " = true := rfl
  exact (h.intercalate hcomma).parens

theorem numberedList_placeholdersFrom (offset n : Nat) :
    NumberedList (placeholdersFrom offset n) (List.range' (offset + 1) n) := by
  have hall := Sql.numberedList_placeholders (offset + 1) n
  simp only [Nat.add_right_comm offset 1] at hall
  exact hall

/-- The comparison with the last row has the placeholders after those of the
filter, and binds the values of that row. -/
theorem numbered_keysetOf {entity : Entity} {document : Bool} {offset : Nat}
    {order : List OrderEntry} {k : Clause}
    (hraw : ∀ entry ∈ order, ∀ text, entry.expr = some text ∨ entry.cast = some text →
      Sql.IsRaw text)
    (h : keysetOf entity document offset order = .ok (some k)) :
    Sql.Numbered k.conditions (List.range' (offset + 1) k.params.length) := by
  unfold keysetOf at h
  dsimp only at h
  split at h
  · cases h
  · split at h
    · cases h
    · obtain ⟨expressions, hexpressions, h⟩ := bind_eq_ok_iff.mp h
      obtain rfl := Option.some.inj (Except.ok.inj h)
      -- the values of the last row stand on the right side only
      have hleft : Sql.Numbered (tuple expressions) [] := by
        apply numbered_tuple
        apply Sql.numberedList_nil
        intro t ht
        obtain ⟨entry, hentry, ht⟩ := exists_of_mapM_eq_ok hexpressions t ht
        exact OrderEntry.numbered_expression (hraw entry hentry) ht
      have hright := numbered_tuple
        (numberedList_placeholdersFrom offset (order.filterMap OrderEntry.last).length)
      have hcomparison : isGlue (if descends order then " < " else " > ") = true := by
        split <;> rfl
      exact hleft.join hcomparison hright

theorem params_keysetOf {entity : Entity} {document : Bool} {offset : Nat}
    {order : List OrderEntry} {k : Option Clause}
    (h : keysetOf entity document offset order = .ok k) :
    (k.map Clause.params).getD [] = order.filterMap OrderEntry.last := by
  unfold keysetOf at h
  dsimp only at h
  split at h
  · next hempty =>
    obtain rfl := Except.ok.inj h
    exact (List.isEmpty_iff.mp hempty).symm
  · split at h
    · cases h
    · obtain ⟨expressions, -, h⟩ := bind_eq_ok_iff.mp h
      obtain rfl := Except.ok.inj h
      rfl

/-- The page of the options is a comparison for their order, when they page by
key. -/
theorem pageOf_eq_ok {entity : Entity} {options : Options} {offset : Nat} {k : Option Clause}
    (h : pageOf entity options offset = .ok k) :
    options.pageLength = none ∧ k = none ∨ options.pageLength ≠ none ∧
      keysetOf entity (options.isDocument entity) offset (options.order.getD []) = .ok k := by
  unfold pageOf at h
  split at h
  · next hnone =>
    obtain rfl := Except.ok.inj h
    exact Or.inl ⟨Option.isNone_iff_eq_none.mp hnone, rfl⟩
  · next hsome =>
    split at h
    · cases h
    · refine Or.inr ⟨fun hnone => hsome (Option.isNone_iff_eq_none.mpr hnone), ?_⟩
      split at h
      · cases h
      · exact h

/-! ### Building -/

/-- What the text of a query relies on. -/
structure Numbered (s : Select) : Prop where
  raw : s.options.RawPlain
  source : Sql.Numbered s.source []
  filter : Sql.Numbered s.filter.conditions (List.range' 1 s.filter.params.length)
  keyset : ∀ k, s.keyset = some k →
    Sql.Numbered k.conditions (List.range' (s.filter.params.length + 1) k.params.length)
  order : ∀ text, s.order = some text → Sql.Numbered text []

theorem numbered_orderOf {entity : Entity} {options : Options} (hraw : options.RawPlain)
    {order : Option String} (h : orderOf entity options = .ok order) {text : String}
    (htext : order = some text) : Sql.Numbered text [] := by
  subst htext
  unfold orderOf at h
  split at h
  · have h := Except.ok.inj h
    obtain ⟨-, htext⟩ := Option.ite_none_left_eq_some.mp h
    rw [← Option.some.inj htext]
    exact numbered_pkList entity
  · obtain ⟨entries, hentries, h⟩ := bind_eq_ok_iff.mp h
    obtain rfl := Option.some.inj (Except.ok.inj h)
    have hcomma : isGlue ", " = true := rfl
    refine (Sql.numberedList_nil ?_).intercalate hcomma
    intro t ht
    obtain ⟨entry, hentry, ht⟩ := exists_of_mapM_eq_ok hentries t ht
    exact OrderEntry.numbered_sql (hraw.order entry hentry) ht

/-- What a query is built from. -/
theorem withClause_eq_ok {entity : Entity} {filter : Clause} {options : Options} {s : Select}
    (h : withClause entity filter options = .ok s) :
    pageOf entity options filter.params.length = .ok s.keyset
      ∧ orderOf entity options = .ok s.order
      ∧ s.source = entity.fullName ∧ s.filter = filter ∧ s.options = options := by
  obtain ⟨keyset, hkeyset, h⟩ := bind_eq_ok_iff.mp h
  obtain ⟨order, horder, h⟩ := bind_eq_ok_iff.mp h
  obtain rfl := Except.ok.inj h
  exact ⟨hkeyset, horder, rfl, rfl, rfl⟩

theorem numbered_withClause {entity : Entity} {filter : Clause} {options : Options} {s : Select}
    (hraw : options.RawPlain)
    (hfilter : Sql.Numbered filter.conditions (List.range' 1 filter.params.length))
    (h : withClause entity filter options = .ok s) : s.Numbered := by
  obtain ⟨hkeyset, horder, hsource, rfl, rfl⟩ := withClause_eq_ok h
  refine ⟨hraw, ?_, hfilter, ?_, fun text htext => numbered_orderOf hraw horder htext⟩
  · rw [hsource]
    exact numbered_fullName entity
  · intro k hk
    rw [hk] at hkeyset
    rcases pageOf_eq_ok hkeyset with ⟨-, hnone⟩ | ⟨-, hkeyset⟩
    · cases hnone
    · exact numbered_keysetOf hraw.order hkeyset

/-- A query from criteria is built on the filter of the criteria. -/
theorem ofJson_eq_ok {entity : Entity} {criteria : Json} {options : Options} {s : Select}
    (h : ofJson entity criteria options = .ok s) :
    ∃ f, Filter.ofJson entity options 0 criteria = .ok f
      ∧ withClause entity f.clause (f.optionsWith options) = .ok s := by
  obtain ⟨f, hf, h⟩ := bind_eq_ok_iff.mp h
  exact ⟨f, hf, mapError_eq_ok_iff.mp h⟩

theorem numbered_ofJson {entity : Entity} {criteria : Json} {options : Options} {s : Select}
    (hraw : options.RawPlain) (h : ofJson entity criteria options = .ok s) : s.Numbered := by
  obtain ⟨f, hf, hs⟩ := ofJson_eq_ok h
  exact numbered_withClause (f.rawPlain_optionsWith hraw) (numbered_filter hf) hs

/-- The values of the last row of the page before, when the options page by
key. -/
def lastValues (o : Options) : List Json :=
  if o.pageLength.isNone then [] else (o.order.getD []).filterMap OrderEntry.last

theorem lastValues_optionsWith (f : Filter) (o : Options) :
    lastValues (f.optionsWith o) = lastValues o := by
  rw [Filter.optionsWith_eq]
  rfl

/-- The parameters of a query are those of its filter and then the values of the
last row. -/
theorem params_withClause {entity : Entity} {filter : Clause} {options : Options} {s : Select}
    (h : withClause entity filter options = .ok s) :
    s.params = filter.params ++ lastValues options := by
  obtain ⟨hpage, -, -, rfl, rfl⟩ := withClause_eq_ok h
  have hlasts : (s.keyset.map Clause.params).getD [] = lastValues s.options := by
    unfold lastValues
    rcases pageOf_eq_ok hpage with ⟨hnone, hkeyset⟩ | ⟨hsome, hkeyset⟩
    · rw [hnone, hkeyset]
      rfl
    · rw [if_neg fun hnone => hsome (Option.isNone_iff_eq_none.mp hnone)]
      exact params_keysetOf hkeyset
  rw [← hlasts]
  unfold params
  rcases s.keyset with - | k
  · exact (List.append_nil s.filter.params).symm
  · rfl

/-! ### Text -/

theorem numbered_countClause {word : String} (hword : isGlue word = true) (n : Option Nat) :
    Sql.Numbered (countClause word n) [] ∧ Stops (countClause word n) := by
  cases n with
  | none => exact ⟨Sql.numbered_empty, Sql.stops_empty⟩
  | some n =>
    have hbare : isBare (word ++ toString n) = true :=
      isBare_append (Sql.isBare_of_isGlue hword) (isBare_toString n)
    exact ⟨Sql.numbered_of_isBare hbare, Sql.stops_glue_append hword (toString n)⟩

theorem numbered_window (o : Options) : Sql.Numbered (window o) [] ∧ Stops (window o) := by
  have hfetch : isGlue " FETCH FIRST " = true := rfl
  have hoffset := numbered_countClause (show isGlue " OFFSET " = true from rfl) o.offset
  have hlimit := numbered_countClause (show isGlue " LIMIT " = true from rfl) o.limit
  unfold window
  rcases o.pageLength with - | n
  · exact ⟨hoffset.1.append_tail hlimit.1 hlimit.2, hoffset.2.append hlimit.2⟩
  · have hbare : isBare (" FETCH FIRST " ++ toString n ++ " ROWS ONLY") = true :=
      isBare_append (isBare_append rfl (isBare_toString n)) rfl
    refine ⟨Sql.numbered_of_isBare hbare, ?_⟩
    dsimp only
    rw [String.append_assoc]
    exact Sql.stops_glue_append hfetch (toString n ++ " ROWS ONLY")

namespace Numbered

variable {s : Select} (h : s.Numbered)
include h

/-- The condition has the placeholders of the filter and then those of the
page. -/
theorem condition : Sql.Numbered s.condition (List.range' 1 s.params.length) := by
  have hleft : isLead "(" = true := rfl
  have hand : isGlue ") AND " = true := rfl
  unfold Select.condition Select.params
  rcases e : s.keyset with - | k
  · exact h.filter
  · -- the page is numbered after the filter
    have hpage := (h.filter.lead hleft).join hand (h.keyset k e)
    rwa [Nat.add_comm s.filter.params.length 1, List.range'_append_1,
      ← List.length_append] at hpage

theorem sql : Sql.Numbered s.sql (List.range' 1 s.params.length) := by
  have hfrom : isGlue (" FROM " ++ s.options.onlyWord) = true := by
    unfold Options.onlyWord
    split <;> rfl
  have hwhere : isGlue " WHERE " = true := rfl
  have horderBy : isGlue " ORDER BY " = true := rfl
  have hprojection : Sql.Numbered ("SELECT " ++ s.options.projection) [] :=
    (Options.numbered_projection h.raw).lead rfl
  have hsource := hprojection.join hfrom h.source
  rw [← String.append_assoc] at hsource
  have hcondition := hsource.join hwhere h.condition
  have hwindow := numbered_window s.options
  unfold Select.sql
  rcases e : s.order with - | order
  · exact (hcondition.append_tail Sql.numbered_empty Sql.stops_empty).append_tail
      hwindow.1 hwindow.2
  · have horder := (h.order order e).lead (Sql.isLead_of_isGlue horderBy)
    exact (hcondition.append_tail horder (Sql.stops_glue_append horderBy order)).append_tail
      hwindow.1 hwindow.2

theorem count : Sql.Numbered s.count.sql (List.range' 1 s.count.params.length) := by
  have hwhere : isGlue " WHERE " = true := rfl
  have hlead : isLead ("SELECT count(*) FROM " ++ s.options.onlyWord) = true :=
    s.options.isLead_append_onlyWord rfl rfl
  exact (h.source.lead hlead).join hwhere h.filter

end Numbered

end Select

end CriteriaSql
