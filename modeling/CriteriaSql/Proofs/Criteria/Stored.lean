/-
CriteriaSql/Proofs/Criteria/Stored.lean

Equality on a path of the body finds what was stored there.

Equality on a path of names binds the document that holds nothing but the value
at the end of the path (`predicateClause_equality`).  A body contains it exactly
where it has, at the end of the same path, a value that contains that one; and an
insert of documents binds each record as the body (`params_of_documents`).

Main result: `stored_value_found`.
-/
import CriteriaSql.Proofs.Json.Containment
import CriteriaSql.Statement.Insert

namespace CriteriaSql

/-! ### Documents that are stored -/

namespace Insert

/-- What an insert of documents binds: each record as the body. -/
theorem params_of_documents {entity : Entity} {value : Json} {options : Options} {i : Insert}
    (h : ofJson entity value options = .ok i) (hdeep : options.deepInsert = false)
    (hdocument : options.isDocument entity = true) :
    ∃ records, recordsOf value = .ok records ∧ i.columns = ["body"]
      ∧ i.params = records.map Json.obj := by
  obtain ⟨records, hrecords, h⟩ := bind_eq_ok_iff.mp h
  dsimp only at h
  rw [hdeep, hdocument] at h
  split at h
  · cases h
  · obtain rfl := Except.ok.inj h
    refine ⟨records, mapError_eq_ok_iff.mp hrecords, rfl, ?_⟩
    show (records.map fun r => [Json.obj r]).flatten = records.map Json.obj
    rw [← List.flatMap_def, List.map_eq_flatMap]

end Insert

/-! ### Documents that are asked for -/

namespace Condition

theorem isObjectList_eq_false {value : Json} (h : ∀ items, value ≠ .arr items) :
    isObjectList value = false := by
  cases value with
  | arr items => exact absurd rfl (h items)
  | null | bool | num | str | obj => rfl

theorem isArr_eq_false {value : Json} (h : ∀ items, value ≠ .arr items) : value.isArr = false := by
  cases value with
  | arr items => exact absurd rfl (h items)
  | null | bool | num | str | obj => rfl

theorem all_isMember_map (names : List String) :
    (names.map Step.member).all Step.isMember = true := by
  rw [List.all_map]
  exact List.all_eq_true.mpr fun _ _ => rfl

end Condition

namespace Criteria

open Condition (documentAt)

variable {pk : List String} {key : String} {value : Json} {names : List String}

/-- Equality on a path of names asks for the value at the end of it. -/
theorem predicateClause_equality (siblings : Criteria) (offset : Nat)
    (hcolumn : (Key.parse key).column ∉ pk)
    (hop : (Operation.resolve (Key.parse key).operatorText).operator = "=")
    (hcast : (Key.parse key).cast = none) (hpath : (Key.parse key).path = names.map Step.member)
    (harr : ∀ items, value ≠ .arr items) :
    predicateClause ⟨.document, pk⟩ siblings offset key value
      = .ok ⟨containmentText (offset + 1),
          [documentAt (Key.parse key).column (names.map Step.member) value]⟩ := by
  have hplain : (startOf key value offset).isPlainEquality = true := by
    rw [Condition.isPlainEquality, operation_startOf, hop, value_startOf, key_startOf, hcast,
      hpath, Condition.isArr_eq_false harr, Condition.all_isMember_map]
    rfl
  have hclause := Condition.clause_containment (params_startOf key value offset)
    (documentAt (Key.parse key).column (names.map Step.member) value)
  rw [offset_startOf] at hclause
  rw [predicateClause_body ⟨rfl, hcolumn⟩, Condition.compileBody, value_startOf, key_startOf,
    hpath, Condition.isObjectList_eq_false harr, if_neg Bool.false_ne_true, if_pos hplain]
  exact congrArg Except.ok hclause

/-- Equality on a path of names, of a value that is no array, finds what was
stored.  The predicate asks for one document, which a body contains exactly
where following the path reaches a value that contains the one of the
predicate; so of the records that an insert of documents stores, those with the
value at the end of the path are found. -/
theorem stored_value_found (siblings : Criteria) (offset : Nat)
    (hcolumn : (Key.parse key).column ∉ pk)
    (hop : (Operation.resolve (Key.parse key).operatorText).operator = "=")
    (hcast : (Key.parse key).cast = none) (hpath : (Key.parse key).path = names.map Step.member)
    (harr : ∀ items, value ≠ .arr items) :
    ∃ document,
      predicateClause ⟨.document, pk⟩ siblings offset key value
          = .ok ⟨"\"body\" @> " ++ placeholder (offset + 1), [document]⟩
        ∧ (∀ body : Json, body.Contains document
            ↔ ∃ found, body.follow ((Key.parse key).column :: names) = some found
                ∧ found.Contains value)
        ∧ ∀ (entity : Entity) (records : Json) (options : Options) (i : Insert),
            Insert.ofJson entity records options = .ok i → options.deepInsert = false →
            options.isDocument entity = true →
            (∃ rs, Insert.recordsOf records = .ok rs ∧ i.columns = ["body"]
              ∧ i.params = rs.map Json.obj)
            ∧ ∀ body ∈ i.params,
                body.follow ((Key.parse key).column :: names) = some value →
                body.Contains document := by
  have hiff := Json.contains_iff_of_onlyAt
    (Json.onlyAt_documentAt (Key.parse key).column names value)
  refine ⟨_, predicateClause_equality siblings offset hcolumn hop hcast hpath harr, hiff, ?_⟩
  intro entity records options i hinsert hdeep hdocument
  refine ⟨Insert.params_of_documents hinsert hdeep hdocument, ?_⟩
  intro body _ hfollow
  exact (hiff body).mpr ⟨value, hfollow, .refl value⟩

/-- A record is found by a value in it; one with another value at the first name
of the path is not. -/
theorem stored_value_found_city :
    ∃ document,
      predicateClause ⟨.document, ["id"]⟩ [] 0 "address.city" (.str "Oslo")
          = .ok ⟨"\"body\" @> $1", [document]⟩
        ∧ ¬ (Json.obj [("address", .str "Oslo")]).Contains document
        ∧ ∃ i, Insert.ofJson (Entity.document "" "people")
              (.obj [("address", .obj [("city", .str "Oslo")])]) Options.none = .ok i
            ∧ ∀ body ∈ i.params, body.Contains document := by
  have hkey : Key.parse "address.city" = ⟨"address", [.member "city"], none, ""⟩ := by
    decide +kernel
  obtain ⟨document, hclause, hiff, hinsert⟩ :=
    @stored_value_found ["id"] "address.city" (.str "Oslo") ["city"] [] 0
      (by rw [hkey]; decide) (by rw [hkey, Operation.resolve_empty]; rfl) (by rw [hkey])
      (by rw [hkey]; rfl) (by rintro items ⟨⟩)
  rw [hkey] at hiff hinsert
  refine ⟨document, hclause, ?_, _, rfl, ?_⟩
  · intro hcontains
    obtain ⟨found, hfollow, -⟩ := (hiff _).mp hcontains
    cases hfollow
  · intro body hbody
    have hfound := (hinsert (Entity.document "" "people")
      (.obj [("address", .obj [("city", .str "Oslo")])]) Options.none _ rfl rfl rfl).2 body hbody
    refine hfound ?_
    obtain rfl := List.mem_singleton.mp hbody
    rfl

end Criteria

end CriteriaSql
