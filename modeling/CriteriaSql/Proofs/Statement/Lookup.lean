/-
CriteriaSql/Proofs/Statement/Lookup.lean

A look-up by key is the criteria that it stands for.

A statement does not compile an object whose only member is the key column: it
writes the comparison itself, without reading the name as a key and without
asking how records are stored.  The compiler comes to the same clause when the
name is read as a column alone (`IsColumn`): it has no operator and so means
equality, it is written as a quoted name, and a key column is a column in a
document table too, so that the storage makes no difference
(`compile_keyEquality`).

Main result: `lookup_eq_compiled`.
-/
import CriteriaSql.Proofs.Criteria.Faults
import CriteriaSql.Statement.Filter

namespace CriteriaSql.Filter

variable {column : String} {value : Json}

/-- The name is read as a column, with no path, cast or operator. -/
def IsColumn (name : String) : Prop :=
  Key.parse name = ⟨name, [], none, ""⟩

/-! ### The compiler -/

/-- Equality binds a number or a text. -/
theorem equality_keyValue {c : Condition} (h : isKeyValue c.value = true) :
    c.equality = .ok (c.bindOne c.value) := by
  unfold Condition.equality
  split
  · next hnull => rw [hnull] at h; cases h
  · next b hbool => rw [hbool] at h; cases h
  · next items harr => rw [harr] at h; cases h
  · rfl

/-- Equality on a key column, in either storage. -/
theorem predicateClause_key {target : Target} (hkey : column ∈ target.pk)
    (hcolumn : IsColumn column) (hvalue : isKeyValue value = true) (siblings : Criteria)
    (offset : Nat) :
    Criteria.predicateClause target siblings offset column value
      = .ok (lookupClause column value offset) := by
  have hreal : ¬(target.storage = .document ∧ column ∉ target.pk) := fun h => h.2 hkey
  unfold Criteria.predicateClause
  rw [hcolumn]
  dsimp only
  rw [if_neg hreal, Operation.resolve_empty]
  have hequality : (Condition.start ⟨column, [], none, ""⟩ Operation.equality value
      (offset + 1)).compileColumn = _ := equality_keyValue hvalue
  rw [hequality]
  refine congrArg Except.ok (congrArg₂ Clause.mk ?_ rfl)
  -- the field, the operator and the placeholder, with a blank between each two
  show Text.quoteIdent column ++ " " ++ "=" ++ " " ++ placeholder (offset + 1)
    = Text.quoteIdent column ++ " = " ++ placeholder (offset + 1)
  simp only [String.append_assoc]
  rfl

/-- The only entry of criteria is all of their clause. -/
theorem compile_keyEquality {target : Target} (hkey : column ∈ target.pk)
    (hcolumn : IsColumn column) (hvalue : isKeyValue value = true) (offset : Nat) :
    Criteria.compile target offset [.predicate column value]
      = .ok (lookupClause column value offset) := by
  unfold Criteria.compile Criteria.entryClauses Criteria.entryClause
  rw [predicateClause_key hkey hcolumn hvalue]
  refine congrArg Except.ok (congrArg₂ Clause.mk ?_ ?_)
  · exact String.intercalate_singleton
  · exact List.append_nil _

/-! ### The look-up -/

theorem ofJson_eq_lookupClause {entity : Entity} {options : Options} {offset : Nat} {v : Json}
    (h : lookup? entity v = .ok (some (column, value))) :
    ofJson entity options offset v = .ok ⟨lookupClause column value offset, true⟩ := by
  unfold ofJson
  rw [h]
  rfl

theorem lookup?_object {entity : Entity} (hpk : entity.pk = [column])
    (hvalue : isKeyValue value = true) :
    lookup? entity (.obj [(column, value)]) = .ok (some (column, value)) :=
  if_pos ⟨hpk, hvalue⟩

theorem soleKey_eq_ok {entity : Entity} (hpk : entity.pk = [column]) :
    soleKey entity = .ok column := by
  rw [soleKey, hpk]

theorem lookup?_num {entity : Entity} (hpk : entity.pk = [column]) (n : JsonNumber) :
    lookup? entity (.num n) = .ok (some (column, .num n)) := by
  rw [lookup?, soleKey_eq_ok hpk]
  rfl

theorem lookup?_uuid {entity : Entity} (hpk : entity.pk = [column]) {s : String}
    (hs : (Uuid.parse? s.toList).isSome = true) :
    lookup? entity (.str s) = .ok (some (column, .str s)) := by
  have hstar : s ≠ "*" := by
    rintro rfl
    revert hs
    decide
  rw [lookup?, if_neg hstar, if_pos hs, soleKey_eq_ok hpk]
  rfl

/-! ### Main result -/

/-- Let the entity have one key column, whose name is no group and is read as a
column alone.  Then a number or a text in an object under that name is looked up
with the clause that the object has as criteria, in either storage, after any
number of parameters; and a number or a UUID that stands alone is looked up with
that clause as well. -/
theorem lookup_eq_compiled (entity : Entity) (options : Options) (storage : Storage)
    (offset : Nat) (column : String) (value : Json) (hpk : entity.pk = [column])
    (hgroup : ¬(column = "or" ∨ column = "and")) (hcolumn : IsColumn column)
    (hvalue : isKeyValue value = true) :
    ∃ criteria clause,
      Criteria.ofJson (.obj [(column, value)]) = .ok criteria
      ∧ Criteria.compile ⟨storage, entity.pk⟩ offset criteria = .ok clause
      ∧ clause = ⟨Text.quoteIdent column ++ " = " ++ placeholder (offset + 1), [value]⟩
      ∧ ofJson entity options offset (.obj [(column, value)]) = .ok ⟨clause, true⟩
      ∧ ((∃ n, value = .num n) ∨ (∃ s, value = .str s ∧ (Uuid.parse? s.toList).isSome = true) →
        ofJson entity options offset value = .ok ⟨clause, true⟩) := by
  have hkey : column ∈ entity.pk := by
    rw [hpk]
    exact List.mem_singleton_self column
  refine ⟨[.predicate column value], lookupClause column value offset, ?_,
    compile_keyEquality hkey hcolumn hvalue offset, rfl,
    ofJson_eq_lookupClause (lookup?_object hpk hvalue), ?_⟩
  · rw [Criteria.ofJson, Criteria.ofMembers, Connective.ofName?_eq_none_iff.mpr hgroup]
    rfl
  · rintro (⟨n, rfl⟩ | ⟨s, rfl, hs⟩)
    · exact ofJson_eq_lookupClause (lookup?_num hpk n)
    · exact ofJson_eq_lookupClause (lookup?_uuid hpk hs)

/-- A UUID in a document table, after three parameters. -/
theorem lookup_eq_compiled_uuid :
    ∃ clause : Clause,
      Criteria.compile ⟨.document, ["id"]⟩ 3
        [.predicate "id" (.str "67e55044-10b1-426f-9247-bb680e5fe0c8")] = .ok clause
      ∧ clause.conditions = "\"id\" = $4"
      ∧ ofJson (.document "public" "docs") Options.none 3
        (.str "67e55044-10b1-426f-9247-bb680e5fe0c8") = .ok ⟨clause, true⟩ := by
  have hcolumn : IsColumn "id" := by
    unfold IsColumn
    decide +kernel
  obtain ⟨criteria, clause, hread, hcompile, rfl, -, hbare⟩ :=
    lookup_eq_compiled (.document "public" "docs") .none .document 3 "id"
      (.str "67e55044-10b1-426f-9247-bb680e5fe0c8") rfl (by decide) hcolumn rfl
  obtain rfl := Except.ok.inj hread
  exact ⟨_, hcompile, by decide +kernel, hbare (.inr ⟨_, rfl, by decide +kernel⟩)⟩

end CriteriaSql.Filter
