/-
CriteriaSql/Proofs/Json/Members.lean

Members of an object: looking one up, inserting several one after the other
(`insertAll`), and keeping only those with given names (`restrict`).
-/
import CriteriaSql.Json.Basic

namespace CriteriaSql

namespace Members

/-! ### Looking up -/

theorem get?_append (ms ms' : Members) (name : String) :
    (ms ++ ms').get? name = (ms.get? name).or (ms'.get? name) := by
  induction ms with
  | nil => rfl
  | cons m ms ih =>
    rw [List.cons_append, get?, get?, ih]
    split <;> rfl

theorem get?_map_mk (columns : List String) (value : String → Json) (column : String) :
    get? (columns.map fun c => (c, value c)) column
      = if column ∈ columns then some (value column) else none := by
  induction columns with
  | nil => rfl
  | cons c columns ih =>
    rw [List.map_cons, get?, ih]
    by_cases h : c = column
    · simp [h]
    · simp [h, Ne.symm h]

theorem get?_of_mem {ms : Members} (hnodup : ms.names.Nodup) {m : String × Json}
    (hm : m ∈ ms) : ms.get? m.1 = some m.2 := by
  induction ms with
  | nil => cases hm
  | cons m' ms ih =>
    obtain ⟨hm', hnodup⟩ := List.nodup_cons.mp hnodup
    rw [get?]
    rcases List.mem_cons.mp hm with rfl | hm
    · rw [if_pos rfl]
    · have hne : m'.1 ≠ m.1 := fun h => hm' (h ▸ List.mem_map_of_mem hm)
      rw [if_neg hne, ih hnodup hm]

theorem mem_of_get? {ms : Members} {name : String} {value : Json}
    (h : ms.get? name = some value) : (name, value) ∈ ms := by
  induction ms with
  | nil => cases h
  | cons m ms ih =>
    obtain ⟨k, v⟩ := m
    rw [get?] at h
    split at h
    · next hname =>
      rw [hname, Option.some.inj h]
      exact List.mem_cons_self
    · exact List.mem_cons_of_mem _ (ih h)

/-! ### Inserting -/

theorem insert_of_notMem {ms : Members} {name : String} (h : name ∉ ms.names) (value : Json) :
    ms.insert name value = ms ++ [(name, value)] := by
  induction ms with
  | nil => rfl
  | cons m ms ih =>
    have hm : m.1 ≠ name ∧ name ∉ names ms := by
      simpa [names, eq_comm] using h
    rw [insert, if_neg hm.1, ih hm.2, List.cons_append]

/-- Setting a member to its own value changes nothing. -/
theorem insert_of_get? {ms : Members} {name : String} {value : Json}
    (h : ms.get? name = some value) : ms.insert name value = ms := by
  induction ms with
  | nil => cases h
  | cons m ms ih =>
    rw [get?] at h
    rw [insert]
    split at h
    · next hm =>
      rw [if_pos hm, ← Option.some.inj h]
    · next hm =>
      rw [if_neg hm, ih h]

/-- Insert members one after the other. -/
def insertAll (fields : Members) (members : Members) : Members :=
  members.foldl (fun fields m => fields.insert m.1 m.2) fields

theorem insertAll_append (fields ms ms' : Members) :
    insertAll fields (ms ++ ms') = insertAll (insertAll fields ms) ms' :=
  List.foldl_append ..

/-- Members with new names go to the end. -/
theorem insertAll_of_disjoint {fields ms : Members} (h : (fields.names ++ ms.names).Nodup) :
    insertAll fields ms = fields ++ ms := by
  induction ms generalizing fields with
  | nil => exact (List.append_nil fields).symm
  | cons m ms ih =>
    have hnames : (names (fields ++ [m]) ++ names ms).Nodup := by
      simpa [names] using h
    have hm : m.1 ∉ fields.names := fun hm =>
      (List.nodup_append.mp h).2.2 m.1 hm m.1 List.mem_cons_self rfl
    show insertAll (fields.insert m.1 m.2) ms = _
    rw [insert_of_notMem hm, ih hnames, List.append_assoc]
    rfl

/-- Members that are there already change nothing. -/
theorem insertAll_of_mem {fields ms : Members} (hnodup : fields.names.Nodup)
    (h : ∀ m ∈ ms, m ∈ fields) : insertAll fields ms = fields := by
  induction ms with
  | nil => rfl
  | cons m ms ih =>
    show insertAll (fields.insert m.1 m.2) ms = _
    rw [insert_of_get? (get?_of_mem hnodup (h m List.mem_cons_self)),
      ih fun m' hm' => h m' (List.mem_cons_of_mem m hm')]

theorem nodup_names_insert {ms : Members} (h : ms.names.Nodup) (name : String) (value : Json) :
    (ms.insert name value).names.Nodup := by
  rw [names_insert]
  split
  · exact h
  · next hname =>
    refine List.nodup_append.mpr ⟨h, List.pairwise_singleton _ name, ?_⟩
    rintro a ha b hb rfl
    exact hname (List.mem_singleton.mp hb ▸ ha)

theorem nodup_names_insertAll {fields : Members} (h : fields.names.Nodup) (ms : Members) :
    (insertAll fields ms).names.Nodup := by
  induction ms generalizing fields with
  | nil => exact h
  | cons m ms ih => exact ih (nodup_names_insert h m.1 m.2)

/-- Of the members inserted under one name the last one stays. -/
theorem get?_insertAll (fields ms : Members) (name : String) :
    (insertAll fields ms).get? name = (get? ms.reverse name).or (fields.get? name) := by
  induction ms generalizing fields with
  | nil => rfl
  | cons m ms ih =>
    show (insertAll (fields.insert m.1 m.2) ms).get? name = _
    rw [ih, List.reverse_cons, get?_append, Option.or_assoc]
    by_cases h : m.1 = name
    · rw [← h, get?_insert_self, get?, if_pos rfl]
      rfl
    · rw [get?_insert_of_ne _ _ (Ne.symm h), get?, if_neg h]
      rfl

/-- Members with the same names in the same order and the same values are the
same. -/
theorem eq_of_names {ms ms' : Members} (hnodup : ms.names.Nodup) (hnames : ms.names = ms'.names)
    (h : ∀ name, ms.get? name = ms'.get? name) : ms = ms' := by
  induction ms generalizing ms' with
  | nil => exact (List.map_eq_nil_iff.mp hnames.symm).symm
  | cons m ms ih =>
    rcases ms' with - | ⟨m', ms'⟩
    · cases hnames
    obtain ⟨hm, hnodup⟩ := List.nodup_cons.mp hnodup
    obtain ⟨hname, hnames⟩ : m.1 = m'.1 ∧ names ms = names ms' := List.cons.inj hnames
    have hvalue : m.2 = m'.2 := by
      have hm := h m.1
      rw [get?, get?, if_pos rfl, if_pos hname.symm] at hm
      exact Option.some.inj hm
    rw [Prod.ext hname hvalue, ih hnodup hnames]
    intro name
    by_cases hother : m.1 = name
    · -- the name of the first member is no other's
      subst hother
      rw [(get?_eq_none_iff ms m.1).mpr hm, (get?_eq_none_iff ms' m.1).mpr (hnames ▸ hm)]
    · have hrest := h name
      rwa [get?, get?, if_neg hother, if_neg (hname ▸ hother)] at hrest

/-- Names that are there already do not move. -/
theorem names_insertAll_of_mem {fields ms : Members} (h : ∀ m ∈ ms, m.1 ∈ fields.names) :
    (insertAll fields ms).names = fields.names := by
  induction ms generalizing fields with
  | nil => rfl
  | cons m ms ih =>
    obtain ⟨hm, h⟩ := List.forall_mem_cons.mp h
    have hnames : (fields.insert m.1 m.2).names = fields.names := by
      rw [names_insert, if_pos hm]
    show (insertAll (fields.insert m.1 m.2) ms).names = _
    rw [ih (by rwa [hnames]), hnames]

theorem mem_names_insertAll {fields ms : Members} {m : String × Json} (hm : m ∈ ms) :
    m.1 ∈ (insertAll fields ms).names := by
  have hset : m.1 ∈ names ms.reverse := List.mem_map_of_mem (List.mem_reverse.mpr hm)
  apply Decidable.byContradiction
  intro hnone
  rw [← get?_eq_none_iff, get?_insertAll, Option.or_eq_none_iff, get?_eq_none_iff] at hnone
  exact hnone.1 hset

/-- Inserting members once more changes nothing: every name is there, and its
last value stays. -/
theorem insertAll_append_self (ms : Members) : insertAll [] (ms ++ ms) = insertAll [] ms := by
  have hempty : (names []).Nodup := List.nodup_nil
  have hnodup := nodup_names_insertAll hempty ms
  rw [insertAll_append]
  refine eq_of_names (nodup_names_insertAll hnodup ms) ?_ fun name => ?_
  · exact names_insertAll_of_mem fun m hm => mem_names_insertAll hm
  · rw [get?_insertAll, get?_insertAll, Option.or_assoc.symm, Option.or_self]

/-- Each value is one that was there, or one that was set. -/
theorem forall_mem_insert {P : Json → Prop} {ms : Members} (h : ∀ m ∈ ms, P m.2)
    (name : String) {value : Json} (hvalue : P value) : ∀ m ∈ ms.insert name value, P m.2 := by
  induction ms with
  | nil =>
    intro m hm
    rw [List.mem_singleton.mp hm]
    exact hvalue
  | cons m' ms ih =>
    obtain ⟨hm', h⟩ := List.forall_mem_cons.mp h
    rw [insert]
    split
    · exact List.forall_mem_cons.mpr ⟨hvalue, h⟩
    · exact List.forall_mem_cons.mpr ⟨hm', ih h⟩

theorem forall_mem_insertAll {P : Json → Prop} {fields ms : Members}
    (hfields : ∀ m ∈ fields, P m.2) (h : ∀ m ∈ ms, P m.2) :
    ∀ m ∈ insertAll fields ms, P m.2 := by
  induction ms generalizing fields with
  | nil => exact hfields
  | cons m ms ih =>
    obtain ⟨hm, h⟩ := List.forall_mem_cons.mp h
    exact ih (forall_mem_insert hfields m.1 hm) h

/-! ### Keeping some of the names -/

/-- The members with the given names. -/
def restrict (columns : List String) (ms : Members) : Members :=
  ms.filter fun m => m.1 ∈ columns

variable {columns : List String} {ms : Members}

theorem get?_restrict {column : String} (h : column ∈ columns) (ms : Members) :
    (ms.restrict columns).get? column = ms.get? column := by
  induction ms with
  | nil => rfl
  | cons m ms ih =>
    rw [restrict] at ih ⊢
    rw [List.filter_cons]
    split
    · rw [get?, get?, ih]
    · next hm =>
      have hne : m.1 ≠ column := by
        rintro rfl
        exact hm (decide_eq_true h)
      rw [ih, get?, if_neg hne]

theorem getD_restrict {column : String} (h : column ∈ columns) (ms : Members) :
    (ms.restrict columns).getD column = ms.getD column := by
  rw [getD, getD, get?_restrict h]

theorem restrict_append (columns : List String) (ms ms' : Members) :
    restrict columns (ms ++ ms') = restrict columns ms ++ restrict columns ms' :=
  List.filter_append ..

theorem restrict_eq_self (h : ∀ name ∈ ms.names, name ∈ columns) : ms.restrict columns = ms := by
  rw [restrict, List.filter_eq_self]
  intro m hm
  exact decide_eq_true (h m.1 (List.mem_map_of_mem hm))

theorem restrict_eq_nil (h : ∀ name ∈ ms.names, name ∉ columns) : ms.restrict columns = [] := by
  rw [restrict, List.filter_eq_nil_iff]
  intro m hm
  simpa using h m.1 (List.mem_map_of_mem hm)

theorem names_append (ms ms' : Members) : (ms ++ ms').names = ms.names ++ ms'.names :=
  List.map_append ..

variable {ms' : Members}

theorem restrict_append_of_left (h : ∀ name ∈ ms.names, name ∈ columns)
    (h' : ∀ name ∈ ms'.names, name ∉ columns) : restrict columns (ms ++ ms') = ms := by
  rw [restrict_append, restrict_eq_self h, restrict_eq_nil h', List.append_nil]

theorem restrict_append_of_right (h : ∀ name ∈ ms.names, name ∉ columns)
    (h' : ∀ name ∈ ms'.names, name ∈ columns) : restrict columns (ms ++ ms') = ms' := by
  rw [restrict_append, restrict_eq_nil h, restrict_eq_self h', List.nil_append]

theorem restrict_restrict {columns' : List String} (h : ∀ c ∈ columns', c ∈ columns)
    (ms : Members) : (ms.restrict columns).restrict columns' = ms.restrict columns' := by
  rw [restrict, restrict, restrict, List.filter_filter]
  apply List.filter_congr
  intro m _
  by_cases hm : m.1 ∈ columns'
  · simp [hm, h m.1 hm]
  · simp [hm]

end Members

end CriteriaSql
