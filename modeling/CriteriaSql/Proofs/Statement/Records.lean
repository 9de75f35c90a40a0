/-
CriteriaSql/Proofs/Statement/Records.lean

The records of an insert and their columns.

A value holds records when it is an object or a list of objects
(`HoldsRecords`), and just then it is taken for records
(`recordsOf_eq_ok_iff`).  The columns are the names of all members, each where
it is first seen (`columnsOf_eq`).
-/
import CriteriaSql.Proofs.Nesting.FirstSeen
import CriteriaSql.Proofs.Outcome
import CriteriaSql.Statement.Insert

namespace CriteriaSql.Insert

/-! ### Records -/

/-- A value is one record, or a list of records. -/
inductive HoldsRecords : Json → List Members → Prop
  | one (record : Members) : HoldsRecords (.obj record) [record]
  | many (records : List Members) : HoldsRecords (.arr (records.map .obj)) records

theorem objects_eq_ok_iff {fault : Json → CriteriaFault} {items : List Json}
    {records : List Members} : objects fault items = .ok records ↔ items = records.map .obj := by
  induction items generalizing records with
  | nil =>
    constructor
    · intro h
      obtain rfl := Except.ok.inj h
      rfl
    · intro h
      rw [List.map_eq_nil_iff.mp h.symm]
      rfl
  | cons item items ih =>
    cases item with
    | obj members =>
      constructor
      · intro h
        obtain ⟨rest, hrest, h⟩ := bind_eq_ok_iff.mp h
        obtain rfl := Except.ok.inj h
        rw [ih.mp hrest, List.map_cons]
      · intro h
        obtain ⟨record, rest, rfl, hrecord, hrest⟩ := List.map_eq_cons_iff.mp h.symm
        obtain rfl := Json.obj.inj hrecord
        exact bind_eq_ok_iff.mpr ⟨rest, ih.mpr hrest.symm, rfl⟩
    | null | bool | num | str | arr =>
      constructor
      · intro h
        cases h
      · intro h
        obtain ⟨record, rest, -, hrecord, -⟩ := List.map_eq_cons_iff.mp h.symm
        cases hrecord

theorem recordsOf_eq_ok_iff {value : Json} {records : List Members} :
    recordsOf value = .ok records ↔ HoldsRecords value records := by
  constructor
  · intro h
    cases value with
    | obj record =>
      obtain rfl := Except.ok.inj h
      exact .one record
    | arr items =>
      rw [objects_eq_ok_iff.mp h]
      exact .many records
    | null | bool | num | str => cases h
  · rintro (record | records)
    · rfl
    · exact objects_eq_ok_iff.mpr rfl

theorem HoldsRecords.unique {value : Json} {records records' : List Members}
    (h : HoldsRecords value records) (h' : HoldsRecords value records') : records = records' :=
  Except.ok.inj ((recordsOf_eq_ok_iff.mpr h).symm.trans (recordsOf_eq_ok_iff.mpr h'))

/-! ### Columns -/

/-- A name goes to the end, unless it is there. -/
theorem eraseDups_append_singleton (names : List String) (name : String) :
    (names ++ [name]).eraseDups
      = if names.eraseDups.contains name then names.eraseDups else names.eraseDups ++ [name] := by
  have hmem : names.eraseDups.contains name = true ↔ name ∈ names := by
    rw [List.contains_iff_mem, List.mem_eraseDups]
  rw [List.eraseDups_append]
  by_cases h : name ∈ names
  · rw [if_pos (hmem.mpr h)]
    simp [h, List.removeAll]
  · have hsingle : [name].eraseDups = [name] := by
      rw [List.eraseDups_cons]
      rfl
    rw [if_neg (mt hmem.mp h)]
    simp [h, List.removeAll, hsingle]

theorem addNames_eq (names more : List String) :
    addNames names.eraseDups more = (names ++ more).eraseDups := by
  induction more generalizing names with
  | nil => rw [List.append_nil]; rfl
  | cons name more ih =>
    rw [addNames, ← eraseDups_append_singleton, ih, List.append_assoc, List.singleton_append]

theorem columnsOf_eq (records : List Members) :
    columnsOf records = (records.flatMap Members.names).eraseDups := by
  have hfold : ∀ (names : List String) (records : List Members),
      records.foldl (fun names record => addNames names record.names) names.eraseDups
        = (names ++ records.flatMap Members.names).eraseDups := by
    intro names records
    induction records generalizing names with
    | nil => rw [List.flatMap_nil, List.append_nil]; rfl
    | cons record records ih =>
      rw [List.foldl_cons, addNames_eq, ih, List.flatMap_cons, List.append_assoc]
  exact hfold [] records

/-- Records have no columns when all of them are empty. -/
theorem columnsOf_eq_nil_iff {records : List Members} :
    columnsOf records = [] ↔ ∀ record ∈ records, record = [] := by
  have hnil : columnsOf records = [] ↔ records.flatMap Members.names = [] := by
    rw [columnsOf_eq, List.eq_nil_iff_forall_not_mem, List.eq_nil_iff_forall_not_mem]
    simp only [List.mem_eraseDups]
  rw [hnil, List.flatMap_eq_nil_iff]
  simp only [Members.names, List.map_eq_nil_iff]

end CriteriaSql.Insert
