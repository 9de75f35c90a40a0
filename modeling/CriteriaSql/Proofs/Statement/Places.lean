/-
CriteriaSql/Proofs/Statement/Places.lean

Where the filter and the order of a query look for a field.

Both decide between a column of the table and the body of the document, but not
from the same: a predicate by the storage that the criteria are compiled for and
the key columns (`predicatesInBody_iff`), an entry of the order by the document
flag, the key columns and the known columns (`sortsInBody_iff`).  The storage
follows the flag unless the options name another one.

Main result: `filter_and_order_places`.  With a storage that is not that of the
flag the two look in different places (`not_forall_places_agree`).
-/
import CriteriaSql.Proofs.Criteria.Stored
import CriteriaSql.Proofs.Key.Place
import CriteriaSql.Proofs.Statement.Keyset

namespace CriteriaSql

open Sql (LeadsWith leading)

/-! ### Operands -/

namespace Key

variable {k : Key}

theorem leadsWith_bodyField (k : Key) : LeadsWith k.bodyField k.bodyPlace :=
  k.leadsWith_bodyPath.applyCast true k.cast

end Key

/-- What a condition compares in the body begins with the place in the body. -/
theorem Condition.leadsWith_extracted (c : Condition) :
    LeadsWith c.extracted c.key.bodyPlace := by
  have hpath := c.key.leadsWith_bodyPath.enclosed
  unfold Condition.extracted
  split
  · exact c.key.leadsWith_bodyField
  · next type _ _ => exact hpath.append (by decide) type
  · rw [← @String.append_empty ("(" ++ c.key.bodyPath ++ ")")]
    exact hpath.append (by decide) ""

/-- A clause that compares nothing. -/
def Clause.IsConstant (c : Clause) : Prop :=
  c = ⟨"TRUE", []⟩ ∨ c = ⟨"FALSE", []⟩

/-- A comparison begins with the place of its left side. -/
theorem Sql.LeadsWith.leading_comparison {field : String} {place : Sql.Place}
    (h : LeadsWith field place) (operator right : String) :
    leading (field ++ " " ++ operator ++ " " ++ right).toList = some place := by
  have hblank : Sql.IsMark " " := by decide
  have hafter := h.append hblank (operator ++ " " ++ right)
  rw [← String.append_assoc, ← String.append_assoc] at hafter
  exact hafter.leading_eq

/-- A fragment that is no constant begins with the place of its operand. -/
theorem Fragment.leading_eq {n : Nat} {field : String} {clause : Clause} {place : Sql.Place}
    (h : Fragment n field clause) (hfield : LeadsWith field place) :
    clause.IsConstant ∨ leading clause.conditions.toList = some place := by
  cases h with
  | truth htext =>
    refine .inl ?_
    rcases htext with rfl | rfl
    · exact .inl rfl
    · exact .inr rfl
  | constant _ _ => exact .inr (hfield.leading_comparison _ _)
  | value _ _ => exact .inr (hfield.leading_comparison _ _)
  | bounds _ _ => exact .inr (hfield.leading_comparison _ _)
  | members _ _ => exact .inr (hfield.leading_comparison _ _)

/-! ### Predicates -/

namespace Criteria

/-- Every predicate on the key, unless it is a constant, compares what stands in
the column of the key. -/
def PredicatesInColumn (target : Target) (key : String) : Prop :=
  ∀ (siblings : Criteria) (offset : Nat) (value : Json) (clause : Clause),
    predicateClause target siblings offset key value = .ok clause →
    clause.IsConstant ∨ leading clause.conditions.toList = some (Key.parse key).columnPlace

/-- Every predicate on the key, unless it is a constant, compares what stands in
the body in the place of the key, or asks the body for a document of its own. -/
def PredicatesInBody (target : Target) (key : String) : Prop :=
  ∀ (siblings : Criteria) (offset : Nat) (value : Json) (clause : Clause),
    predicateClause target siblings offset key value = .ok clause →
    clause.IsConstant ∨ leading clause.conditions.toList = some (Key.parse key).bodyPlace
      ∨ ∃ document, clause = ⟨containmentText (offset + 1), [document]⟩
          ∧ Asked ⟨siblings, key, value⟩ document

variable {target : Target} {key : String}

theorem predicatesInColumn (h : ¬UsesBody target key) : PredicatesInColumn target key := by
  intro siblings offset value clause hclause
  rw [predicateClause_column h] at hclause
  obtain ⟨c, hc, rfl⟩ := map_eq_ok_iff.mp hclause
  have hfragment := Condition.fragment_compileColumn (params_startOf key value offset)
    (operation_startOf_mem key value offset) hc
  rw [field_startOf] at hfragment
  exact hfragment.leading_eq (Key.parse key).leadsWith_field

theorem predicatesInBody (h : UsesBody target key) : PredicatesInBody target key := by
  intro siblings offset value clause hclause
  have htarget : target = ⟨.document, target.pk⟩ := by rw [← h.1]
  -- only containment has no operand; every other clause compares what is extracted
  by_cases htext : clause.conditions = containmentText (offset + 1)
  · rw [htarget] at hclause
    obtain ⟨-, document, hparams, hasked⟩ :=
      asked_of_predicateClause (s := ⟨siblings, key, value⟩) hclause h.2 htext
    refine .inr (.inr ⟨document, ?_, hasked⟩)
    rw [← htext, ← hparams]
  · rw [predicateClause_body h] at hclause
    have hparams := params_startOf key value offset
    have hmem := operation_startOf_mem key value offset
    have hfield := (startOf key value offset).leadsWith_extracted
    have hoffset := offset_startOf key value offset
    rw [key_startOf] at hfield
    generalize startOf key value offset = start at hparams hmem hfield hoffset hclause
    obtain ⟨c, hc, rfl⟩ := map_eq_ok_iff.mp hclause
    have hcontainment : ∀ document, (start.containment document).clause.conditions
        = containmentText (offset + 1) := by
      intro document
      rw [Condition.clause_containment hparams, hoffset]
    unfold Condition.compileBody at hc
    split at hc
    · obtain rfl := Except.ok.inj hc
      exact absurd (hcontainment _) htext
    · split at hc
      · obtain rfl := Except.ok.inj hc
        exact absurd (hcontainment _) htext
      · have hfragment := Condition.fragment_compileColumn
          (c := { start with field := start.extracted }) hparams hmem hc
        exact (hfragment.leading_eq hfield).imp_right .inl

/-! ### A value that tells the places apart -/

/-- A value that every rule of the operation takes, and that no document is
asked for. -/
def probe (operation : Operation) : Json :=
  if operation.rule = some .is then .null else .arr [.ofNat 0, .ofNat 0]

/-- With that value a condition gets a right side. -/
theorem exists_compileColumn_probe {c : Condition}
    (hmem : c.operation ∈ Operation.registered.map Prod.snd)
    (hvalue : c.value = probe c.operation) :
    ∃ (d : Condition) (right : String), c.compileColumn = .ok (d.withRight right)
      ∧ d.field = c.field ∧ d.operation.operator ≠ "" := by
  have hnames : ∀ o ∈ Operation.registered.map Prod.snd, o.operator ≠ "" := by decide
  have hname := hnames _ hmem
  have hlist : c.operation.rule ≠ some .is → c.value = .arr [.ofNat 0, .ofNat 0] :=
    fun h => hvalue.trans (if_neg h)
  unfold Condition.compileColumn
  rcases hrule : c.operation.rule with - | rule
  · rw [hlist (by rw [hrule]; decide)]
    exact ⟨_, _, rfl, rfl, hname⟩
  · cases rule with
    | is =>
      have hnull : c.value = .null := hvalue.trans (if_pos hrule)
      refine ⟨c.withOperator (if c.operation.operator = "=" ∨ c.operation.operator = "IS"
        then "IS" else "IS NOT"), "NULL", ?_, rfl, ?_⟩
      · show c.identity = _
        rw [Condition.identity, hnull]
        rfl
      · show (if _ then "IS" else "IS NOT") ≠ ""
        split <;> decide
    | between =>
      refine ⟨c.bind [.ofNat 0, .ofNat 0],
        placeholder c.offset ++ " AND " ++ placeholder (c.offset + 1), ?_, rfl, hname⟩
      show c.between = _
      rw [Condition.between, hlist (by rw [hrule]; decide)]
    | equality =>
      refine ⟨(c.withOperator (if c.operation.operator ≠ "=" then "NOT IN" else "IN")).bind
        [.ofNat 0, .ofNat 0], "(" ++ ", ".intercalate (c.placeholders 2) ++ ")", ?_, rfl, ?_⟩
      · show c.equality = _
        rw [Condition.equality, hlist (by rw [hrule]; decide)]
        show c.membership = _
        rw [Condition.membership, hlist (by rw [hrule]; decide)]
        rfl
      · show (if _ then "NOT IN" else "IN") ≠ ""
        split <;> decide
    | arrayLiteral =>
      refine ⟨c.bind [.str (ArrayLiteral.write [.ofNat 0, .ofNat 0])], placeholder c.offset, ?_,
        rfl, hname⟩
      show Except.ok c.arrayLiteral = _
      rw [Condition.arrayLiteral, hlist (by rw [hrule]; decide)]
      rfl

/-- So the clause begins with the place of its field. -/
theorem leading_compileColumn_probe {c : Condition} {place : Sql.Place}
    (hmem : c.operation ∈ Operation.registered.map Prod.snd)
    (hvalue : c.value = probe c.operation) (hfield : LeadsWith c.field place) :
    ∃ c', c.compileColumn = .ok c' ∧ leading c'.clause.conditions.toList = some place := by
  obtain ⟨d, right, hc, hd, hname⟩ := exists_compileColumn_probe hmem hvalue
  refine ⟨_, hc, ?_⟩
  rw [Condition.clause, Condition.predicate_withRight hname, hd]
  exact hfield.leading_comparison _ _

theorem isObjectList_probe (o : Operation) : Condition.isObjectList (probe o) = false := by
  unfold probe
  split <;> rfl

/-- The probe is no value of a plain equality. -/
theorem operator_ne_of_probe {o : Operation} (ho : o ∈ Operation.registered.map Prod.snd)
    (harr : (probe o).isArr = false) : o.operator ≠ "=" := by
  have his : ∀ o ∈ Operation.registered.map Prod.snd, o.rule = some .is → o.operator ≠ "=" := by
    decide
  unfold probe at harr
  split at harr
  · next hrule => exact his o ho hrule
  · cases harr

theorem isPlainEquality_probe {c : Condition}
    (hmem : c.operation ∈ Operation.registered.map Prod.snd)
    (hvalue : c.value = probe c.operation) : c.isPlainEquality = false := by
  rw [Condition.isPlainEquality, hvalue]
  rcases harr : (probe c.operation).isArr with - | -
  · simp [operator_ne_of_probe hmem harr]
  · simp

/-- The value that tells the places of a key apart. -/
def probeOf (key : String) : Json :=
  probe (Operation.resolve (Key.parse key).operatorText)

/-- No document is asked for with the probe. -/
theorem not_asked_of_probe {s : Site} (hs : s.value = probeOf s.key) (document : Json) :
    ¬Asked s document := by
  intro h
  cases h with
  | field harr hop _ _ _ =>
    have hnot := Condition.isArr_eq_false harr
    rw [hs, probeOf] at hnot
    exact operator_ne_of_probe (Operation.resolve_mem _) hnot hop
  | whole hobjects _ _ =>
    have hlist := Json.isObjectList_iff.mpr hobjects
    rw [hs, probeOf, isObjectList_probe] at hlist
    cases hlist

theorem not_isConstant_of_leading {clause : Clause} {place : Sql.Place}
    (h : leading clause.conditions.toList = some place) : ¬clause.IsConstant := by
  rintro (rfl | rfl) <;> cases h

theorem value_startOf_probeOf (offset : Nat) :
    (startOf key (probeOf key) offset).value
      = probe (startOf key (probeOf key) offset).operation := by
  rw [value_startOf, operation_startOf, probeOf]

/-- With the probe a key is compared in its column. -/
theorem exists_clause_column (h : ¬UsesBody target key) (siblings : Criteria) (offset : Nat) :
    ∃ clause, predicateClause target siblings offset key (probeOf key) = .ok clause
      ∧ leading clause.conditions.toList = some (Key.parse key).columnPlace := by
  have hfield : LeadsWith (startOf key (probeOf key) offset).field (Key.parse key).columnPlace := by
    rw [field_startOf]
    exact (Key.parse key).leadsWith_field
  obtain ⟨c, hc, hleading⟩ := leading_compileColumn_probe (operation_startOf_mem _ _ _)
    (value_startOf_probeOf offset) hfield
  exact ⟨c.clause, by rw [predicateClause_column h, hc]; rfl, hleading⟩

/-- With the probe a key is compared in the body. -/
theorem exists_clause_body (h : UsesBody target key) (siblings : Criteria) (offset : Nat) :
    ∃ clause, predicateClause target siblings offset key (probeOf key) = .ok clause
      ∧ leading clause.conditions.toList = some (Key.parse key).bodyPlace := by
  have hmem := operation_startOf_mem key (probeOf key) offset
  have hvalue := @value_startOf_probeOf key offset
  have hfield := (startOf key (probeOf key) offset).leadsWith_extracted
  rw [key_startOf] at hfield
  have hclause := @predicateClause_body target siblings offset key (probeOf key) h
  generalize startOf key (probeOf key) offset = start at hmem hvalue hfield hclause
  obtain ⟨c, hc, hleading⟩ := leading_compileColumn_probe
    (c := { start with field := start.extracted }) hmem hvalue hfield
  have hobjects : Condition.isObjectList start.value = false := by
    rw [hvalue, isObjectList_probe]
  rw [Condition.compileBody, hobjects, isPlainEquality_probe hmem hvalue,
    if_neg Bool.false_ne_true, if_neg Bool.false_ne_true, hc] at hclause
  exact ⟨c.clause, hclause, hleading⟩

/-- The key is compared in the body exactly where the storage is a document and
the column is no key column. -/
theorem predicatesInBody_iff : PredicatesInBody target key ↔ UsesBody target key := by
  refine ⟨fun h => ?_, predicatesInBody⟩
  by_contra hcolumn
  obtain ⟨clause, hclause, hleading⟩ := exists_clause_column hcolumn [] 0
  rcases h _ _ _ _ hclause with hconstant | hbody | ⟨document, -, hasked⟩
  · exact not_isConstant_of_leading hleading hconstant
  · exact (Key.parse key).columnPlace_ne_bodyPlace (Option.some.inj (hleading.symm.trans hbody))
  · exact not_asked_of_probe (by dsimp only) document hasked

/-- Otherwise it is compared in its column. -/
theorem predicatesInColumn_iff : PredicatesInColumn target key ↔ ¬UsesBody target key := by
  refine ⟨fun h hbody => ?_, predicatesInColumn⟩
  obtain ⟨clause, hclause, hleading⟩ := exists_clause_body hbody [] 0
  rcases h _ _ _ _ hclause with hconstant | hcolumn
  · exact not_isConstant_of_leading hleading hconstant
  · exact (Key.parse key).columnPlace_ne_bodyPlace (Option.some.inj (hcolumn.symm.trans hleading))

end Criteria

/-! ### Entries of an order -/

namespace OrderEntry

/-- Every entry on the field sorts by what stands in its column. -/
def SortsInColumn (entity : Entity) (document : Bool) (field : String) : Prop :=
  ∀ (o : OrderEntry) (e : String), o.field = some field → o.expression entity document = .ok e →
    leading e.toList = some (Key.parse field).columnPlace

/-- Every entry on the field sorts by what stands in the body in its place. -/
def SortsInBody (entity : Entity) (document : Bool) (field : String) : Prop :=
  ∀ (o : OrderEntry) (e : String), o.field = some field → o.expression entity document = .ok e →
    leading e.toList = some (Key.parse field).bodyPlace

/-- The field is sorted by in the body. -/
def UsesBody (entity : Entity) (document : Bool) (field : String) : Prop :=
  document = true ∧ (Key.parse field).column ∉ entity.pk
    ∧ (Key.parse field).column ∉ entity.columns

variable {entity : Entity} {document : Bool} {field : String}

theorem fieldExpression_body (h : UsesBody entity document field) :
    fieldExpression entity document field = (Key.parse field).bodyPath := by
  obtain ⟨rfl, hpk, hcolumns⟩ := h
  have hcond : (true && !entity.isPk (Key.parse field).column
      && !entity.columns.contains (Key.parse field).column) = true := by
    simp [Entity.isPk, hpk, hcolumns]
  rw [fieldExpression]
  exact if_pos hcond

theorem fieldExpression_column (h : ¬UsesBody entity document field) :
    fieldExpression entity document field = (Key.parse field).field := by
  have hcond : (document && !entity.isPk (Key.parse field).column
      && !entity.columns.contains (Key.parse field).column) = false := by
    rw [UsesBody] at h
    rw [← Bool.not_eq_true]
    intro htrue
    refine h ?_
    simpa [Entity.isPk, and_assoc] using htrue
  rw [fieldExpression]
  exact if_neg (by rw [hcond]; exact Bool.false_ne_true)

/-- A cast of the entry stands behind what the field is sorted by. -/
theorem expression_of_field {o : OrderEntry} {e : String} (hfield : o.field = some field)
    (h : o.expression entity document = .ok e) :
    e = fieldExpression entity document field
      ∨ ∃ cast, e = "(" ++ fieldExpression entity document field ++ ")::" ++ cast := by
  obtain ⟨_, expr, direction, cast, nulls, last⟩ := o
  obtain rfl := hfield
  cases cast with
  | none => exact .inl (Except.ok.inj h).symm
  | some cast => exact .inr ⟨cast, (Except.ok.inj h).symm⟩

/-- So it does not change the place. -/
theorem leading_expression {o : OrderEntry} {e : String} {place : Sql.Place}
    (hfield : o.field = some field) (h : o.expression entity document = .ok e)
    (hplace : LeadsWith (fieldExpression entity document field) place) :
    leading e.toList = some place := by
  rcases expression_of_field hfield h with rfl | ⟨cast, rfl⟩
  · exact hplace.leading_eq
  · have hcast : Sql.IsMark ")::" := by decide
    exact (hplace.enclosed.append hcast cast).leading_eq

theorem sortsInBody (h : UsesBody entity document field) : SortsInBody entity document field := by
  intro o e hfield he
  refine leading_expression hfield he ?_
  rw [fieldExpression_body h]
  exact (Key.parse field).leadsWith_bodyPath

theorem sortsInColumn (h : ¬UsesBody entity document field) :
    SortsInColumn entity document field := by
  intro o e hfield he
  refine leading_expression hfield he ?_
  rw [fieldExpression_column h]
  exact (Key.parse field).leadsWith_field

/-- No field is sorted by in both places. -/
theorem not_sortsInBoth (hcolumn : SortsInColumn entity document field)
    (hbody : SortsInBody entity document field) : False := by
  have hentry : (byField field).expression entity document
      = .ok (fieldExpression entity document field) := rfl
  have hplaces := (hcolumn _ _ rfl hentry).symm.trans (hbody _ _ rfl hentry)
  exact (Key.parse field).columnPlace_ne_bodyPlace (Option.some.inj hplaces)

/-- A field is sorted by in the body exactly in a document, where it is neither a
key column nor a known column. -/
theorem sortsInBody_iff : SortsInBody entity document field ↔ UsesBody entity document field := by
  refine ⟨fun h => ?_, sortsInBody⟩
  by_contra hcolumn
  exact not_sortsInBoth (sortsInColumn hcolumn) h

theorem sortsInColumn_iff :
    SortsInColumn entity document field ↔ ¬UsesBody entity document field :=
  ⟨fun h hbody => not_sortsInBoth h (sortsInBody hbody), sortsInColumn⟩

end OrderEntry

/-! ### Queries -/

namespace Filter

variable {entity : Entity} {options : Options} {value : Json}

/-- A look-up is by the only key column. -/
theorem pk_of_lookup? {column : String} {key : Json}
    (h : lookup? entity value = .ok (some (column, key))) : entity.pk = [column] := by
  have hsole : ∀ {c : String}, soleKey entity = .ok c → entity.pk = [c] := by
    intro c hc
    unfold soleKey at hc
    split at hc
    · next c' hpk =>
      rw [hpk, Except.ok.inj hc]
    · cases hc
  unfold lookup? at h
  split at h
  · obtain ⟨c, hc, h⟩ := bind_eq_ok_iff.mp h
    obtain ⟨rfl, -⟩ := Prod.mk.inj (Option.some.inj (Except.ok.inj h))
    exact hsole (mapError_eq_ok_iff.mp hc)
  · split at h
    · cases h
    · split at h
      · obtain ⟨c, hc, h⟩ := bind_eq_ok_iff.mp h
        obtain ⟨rfl, -⟩ := Prod.mk.inj (Option.some.inj (Except.ok.inj h))
        exact hsole (mapError_eq_ok_iff.mp hc)
      · cases h
  · split at h
    · next hkey =>
      obtain ⟨rfl, -⟩ := Prod.mk.inj (Option.some.inj (Except.ok.inj h))
      exact hkey.1
    · cases h
  · cases h

/-- A filter is a look-up by the key column, or compiled criteria. -/
theorem ofJson_eq_ok {offset : Nat} {f : Filter} (h : ofJson entity options offset value = .ok f) :
    (∃ column key, entity.pk = [column] ∧ f = ⟨lookupClause column key offset, true⟩)
      ∨ ∃ storage criteria, storageOf entity options = .ok storage
          ∧ Criteria.ofJson value = .ok criteria
          ∧ Criteria.compile ⟨storage, entity.pk⟩ offset criteria = .ok f.clause := by
  obtain ⟨found, hfound, h⟩ := bind_eq_ok_iff.mp h
  rcases found with - | ⟨column, key⟩
  · obtain ⟨storage, hstorage, h⟩ := bind_eq_ok_iff.mp h
    obtain ⟨criteria, hcriteria, h⟩ := bind_eq_ok_iff.mp h
    obtain ⟨clause, hclause, h⟩ := bind_eq_ok_iff.mp h
    obtain rfl := Except.ok.inj h
    exact .inr ⟨storage, criteria, mapError_eq_ok_iff.mp hstorage,
      mapError_eq_ok_iff.mp hcriteria, mapError_eq_ok_iff.mp hclause⟩
  · exact .inl ⟨column, key, pk_of_lookup? hfound, (Except.ok.inj h).symm⟩

theorem leading_lookupClause (column : String) (key : Json) (offset : Nat) :
    leading (lookupClause column key offset).conditions.toList = some ⟨column, .whole⟩ := by
  have hequals : Sql.IsMark " = " := by decide
  exact ((Key.leadsWith_followPath column []).append hequals (placeholder (offset + 1))).leading_eq

/-- The storage of the document flag. -/
def flagStorage (entity : Entity) (options : Options) : Storage :=
  if options.isDocument entity then .document else .table

theorem flagStorage_eq_document_iff :
    flagStorage entity options = .document ↔ options.isDocument entity = true := by
  unfold flagStorage
  split <;> simp_all

/-- Without a generator of its own a statement has the storage of the flag. -/
theorem storageOf_of_none (h : options.generator = none) :
    storageOf entity options = .ok (flagStorage entity options) := by
  rw [storageOf, h, flagStorage]

end Filter

namespace Select

variable {entity : Entity} {options : Options}

/-- The order of a query is that of its sort keys, and the comparison with the
page before compares the same expressions. -/
theorem exists_sortKeys {filter : Clause} {s : Select}
    (h : withClause entity filter options = .ok s) (horder : options.order.getD [] ≠ []) :
    ∃ keys, (options.order.getD []).mapM (fun o => o.sortKey entity (options.isDocument entity))
        = .ok keys
      ∧ s.order = some (", ".intercalate (keys.map SortKey.text))
      ∧ ∀ k, s.keyset = some k →
          ∃ rest, k.conditions = tuple (keys.map SortKey.expression) ++ rest := by
  obtain ⟨hpage, htext, -⟩ := withClause_eq_ok h
  generalize hlist : options.order.getD [] = order at horder
  unfold orderOf at htext
  rw [hlist] at htext
  split at htext
  · exact absurd rfl horder
  · simp only [sql_eq_map_sortKey, mapM_map_eq] at htext
    obtain ⟨entries, hentries, htext⟩ := bind_eq_ok_iff.mp htext
    obtain ⟨keys, hkeys, rfl⟩ := map_eq_ok_iff.mp hentries
    refine ⟨keys, hkeys, (Except.ok.inj htext).symm, ?_⟩
    intro k hk
    rw [hk] at hpage
    rcases pageOf_eq_ok hpage with ⟨-, hnone⟩ | ⟨-, hkeyset⟩
    · cases hnone
    · rw [hlist] at hkeyset
      unfold keysetOf at hkeyset
      dsimp only at hkeyset
      split at hkeyset
      · cases hkeyset
      · split at hkeyset
        · cases hkeyset
        · simp only [expression_eq_map_sortKey, mapM_map_eq, hkeys] at hkeyset
          obtain rfl := Option.some.inj (Except.ok.inj hkeyset)
          exact ⟨_, String.append_assoc⟩

variable (entity options) in
/-- A column that is known of a document table, beside the body, and is no key
column. -/
def ListedBesideBody (column : String) : Prop :=
  options.isDocument entity = true ∧ column ∈ entity.columns ∧ column ∉ entity.pk

open Criteria (PredicatesInBody PredicatesInColumn)
open OrderEntry (SortsInBody SortsInColumn)

/-- With the storage of the document flag, and but for the known columns of a
document table, the two decisions are the same. -/
theorem usesBody_iff {storage : Storage} {key field : String}
    (hlisted : ¬(storage = .document ∧ ListedBesideBody entity options (Key.parse key).column))
    (hfield : (Key.parse field).column = (Key.parse key).column)
    (hstorage : storage = Filter.flagStorage entity options) :
    Criteria.UsesBody ⟨storage, entity.pk⟩ key
      ↔ OrderEntry.UsesBody entity (options.isDocument entity) field := by
  have hflag : storage = .document ↔ options.isDocument entity = true := by
    rw [hstorage, Filter.flagStorage_eq_document_iff]
  unfold Criteria.UsesBody OrderEntry.UsesBody
  rw [hfield]
  constructor
  · rintro ⟨hdocument, hpk⟩
    refine ⟨hflag.mp hdocument, hpk, fun hcolumn => hlisted ⟨hdocument, ?_⟩⟩
    exact ⟨hflag.mp hdocument, hcolumn, hpk⟩
  · rintro ⟨hdocument, hpk, -⟩
    exact ⟨hflag.mpr hdocument, hpk⟩

/-- Where a query looks for a field.  The filter of a look-up names the key
column.  Other filters are compiled for one storage, which is that of the
document flag unless the options name it: a predicate looks in the body where
that storage is a document and the column is no key column, and otherwise in the
column, but for the known columns of a document table.  An entry of the order
looks in the body where the flag is set and the column is neither a key column
nor a known one, and otherwise in the column; the comparison with the page
before is made of the expressions of the entries.  So where the storage is that
of the flag, both look in the same place. -/
theorem filter_and_order_places {criteria : Json} {s : Select}
    (hs : ofJson entity criteria options = .ok s) :
    ((∃ column value, entity.pk = [column] ∧ s.filter = Filter.lookupClause column value 0
        ∧ leading s.filter.conditions.toList = some ⟨column, .whole⟩)
      ∨ ∃ storage cs, Filter.storageOf entity options = .ok storage
          ∧ (options.generator = none → storage = Filter.flagStorage entity options)
          ∧ Criteria.ofJson criteria = .ok cs
          ∧ Criteria.compile ⟨storage, entity.pk⟩ 0 cs = .ok s.filter
          ∧ ∀ key,
              ¬(storage = .document ∧ ListedBesideBody entity options (Key.parse key).column) →
              (PredicatesInBody ⟨storage, entity.pk⟩ key
                ↔ storage = .document ∧ (Key.parse key).column ∉ entity.pk)
              ∧ (PredicatesInColumn ⟨storage, entity.pk⟩ key
                ↔ ¬(storage = .document ∧ (Key.parse key).column ∉ entity.pk))
              ∧ ∀ field, (Key.parse field).column = (Key.parse key).column →
                  storage = Filter.flagStorage entity options →
                  (PredicatesInBody ⟨storage, entity.pk⟩ key
                    ↔ SortsInBody entity (options.isDocument entity) field)
                  ∧ (PredicatesInColumn ⟨storage, entity.pk⟩ key
                    ↔ SortsInColumn entity (options.isDocument entity) field))
    ∧ (∀ field,
        (SortsInBody entity (options.isDocument entity) field
          ↔ options.isDocument entity = true ∧ (Key.parse field).column ∉ entity.pk
            ∧ (Key.parse field).column ∉ entity.columns)
        ∧ (SortsInColumn entity (options.isDocument entity) field
          ↔ ¬(options.isDocument entity = true ∧ (Key.parse field).column ∉ entity.pk
            ∧ (Key.parse field).column ∉ entity.columns)))
    ∧ (options.order.getD [] ≠ [] →
        ∃ keys, (options.order.getD []).mapM
            (fun o => o.sortKey entity (options.isDocument entity)) = .ok keys
          ∧ s.order = some (", ".intercalate (keys.map SortKey.text))
          ∧ ∀ k, s.keyset = some k →
              ∃ rest, k.conditions = tuple (keys.map SortKey.expression) ++ rest) := by
  obtain ⟨f, hf, hquery⟩ := ofJson_eq_ok hs
  obtain ⟨-, -, -, hfilter, -⟩ := withClause_eq_ok hquery
  refine ⟨?_, fun field => ⟨OrderEntry.sortsInBody_iff, OrderEntry.sortsInColumn_iff⟩, ?_⟩
  · rcases Filter.ofJson_eq_ok hf with ⟨column, value, hpk, rfl⟩
      | ⟨storage, cs, hstorage, hcs, hcompile⟩
    · refine .inl ⟨column, value, hpk, hfilter, ?_⟩
      rw [hfilter]
      exact Filter.leading_lookupClause column value 0
    · rw [← hfilter] at hcompile
      refine .inr ⟨storage, cs, hstorage, ?_, hcs, hcompile, ?_⟩
      · intro hnone
        exact Except.ok.inj (hstorage.symm.trans (Filter.storageOf_of_none hnone))
      · intro key hlisted
        refine ⟨Criteria.predicatesInBody_iff, Criteria.predicatesInColumn_iff, ?_⟩
        intro field hfield hflag
        have hsame := usesBody_iff hlisted hfield hflag
        rw [Criteria.predicatesInBody_iff, Criteria.predicatesInColumn_iff,
          OrderEntry.sortsInBody_iff, OrderEntry.sortsInColumn_iff]
        exact ⟨hsame, not_congr hsame⟩
  · rw [Filter.optionsWith_eq] at hquery
    have hkeys := exists_sortKeys hquery
    exact hkeys

/-- Documents by their title: the filter and the order look for the title in the
body, and for the key in its column. -/
theorem filter_and_order_places_title :
    ∃ s, ofJson (Entity.document "" "docs") (.obj [("title >", .str "Dune")])
        (Options.none.withOrder (OrderEntry.byField "title")) = .ok s
      ∧ PredicatesInBody ⟨.document, ["id"]⟩ "title >"
      ∧ SortsInBody (Entity.document "" "docs") true "title"
      ∧ PredicatesInColumn ⟨.document, ["id"]⟩ "id"
      ∧ SortsInColumn (Entity.document "" "docs") true "id"
      ∧ s.order = some "\"body\"->>'title'" := by
  have htext : ((ofJson (Entity.document "" "docs") (.obj [("title >", .str "Dune")])
      (Options.none.withOrder (OrderEntry.byField "title"))).toOption.map
        fun s => (s.filter.conditions, s.order))
      = some ("(\"body\"->>'title') > $1", some "\"body\"->>'title'") := by decide +kernel
  have htitle : (Key.parse "title").column = "title" := by decide +kernel
  have hgreater : (Key.parse "title >").column = "title" := by decide +kernel
  have hid : (Key.parse "id").column = "id" := by decide +kernel
  rcases hs : ofJson (Entity.document "" "docs") (.obj [("title >", .str "Dune")])
    (Options.none.withOrder (OrderEntry.byField "title")) with e | s
  · rw [hs] at htext
    cases htext
  · rw [hs] at htext
    obtain ⟨hconditions, horder⟩ := Prod.mk.inj (Option.some.inj htext)
    obtain ⟨hfilter, hsorts, -⟩ := filter_and_order_places hs
    rcases hfilter with ⟨column, value, -, -, hplace⟩ | ⟨storage, cs, -, hstorage, -, -, hkeys⟩
    · have hbody : leading "(\"body\"->>'title') > $1".toList
          = some ⟨"body", .name "title"⟩ := by decide +kernel
      rw [hconditions, hbody] at hplace
      cases hplace
    · obtain rfl : storage = .document := hstorage rfl
      refine ⟨s, rfl, (hkeys "title >" ?_).1.mpr ?_, (hsorts "title").1.mpr ?_,
        (hkeys "id" ?_).2.1.mpr ?_, (hsorts "id").2.mpr ?_, horder⟩
      · rw [hgreater]
        rintro ⟨-, -, hlisted, -⟩
        revert hlisted
        decide
      · rw [hgreater]
        decide
      · rw [htitle]
        decide
      · rw [hid]
        rintro ⟨-, -, -, hpk⟩
        exact hpk (by decide)
      · rw [hid]
        decide
      · rw [hid]
        decide

/-- Where the options name another storage than that of the flag, the filter and
the order of one field look in different places. -/
theorem not_forall_places_agree :
    ¬ ∀ (entity : Entity) (criteria : Json) (options : Options) (s : Select) (storage : Storage)
        (key field : String), ofJson entity criteria options = .ok s →
      Filter.storageOf entity options = .ok storage →
      (Key.parse field).column = (Key.parse key).column →
      (PredicatesInBody ⟨storage, entity.pk⟩ key
        ↔ SortsInBody entity (options.isDocument entity) field) := by
  intro hall
  obtain ⟨s, hs⟩ := exists_of_toBool (x := ofJson (Entity.table "" "users")
    (.obj [("age >", .ofNat 3)]) ((Options.none.withOrder (OrderEntry.byField "age")).withGenerator
      "docGenerator")) (by decide +kernel)
  have hage : (Key.parse "age").column = "age" := by decide +kernel
  have hgreater : (Key.parse "age >").column = "age" := by decide +kernel
  have hagree := hall _ _ _ s .document "age >" "age" hs rfl (hage.trans hgreater.symm)
  rw [Criteria.predicatesInBody_iff, OrderEntry.sortsInBody_iff] at hagree
  have hbody : Criteria.UsesBody ⟨.document, []⟩ "age >" := ⟨rfl, List.not_mem_nil⟩
  exact absurd (hagree.mp hbody).1 (by decide)

end Select

end CriteriaSql
