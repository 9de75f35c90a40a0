/-
CriteriaSql/Proofs/Json/Containment.lean

Containment of documents, as the operator `@>` has it.

One value contains another when both are of the same kind and everything in the
second is found in the first: every member of an object under its name, every
item of an array somewhere in the array, scalars as they are.  Numbers are equal
when their values are, however they are written (`JsonNumber.numeric`).

Main statements: every value contains itself (`Contains.refl`), and a document
that holds nothing but one value at the end of a path of names is contained
exactly where following the path ends at a value that contains that one
(`contains_iff_of_onlyAt`).
-/
import CriteriaSql.Proofs.Criteria.Documents
import Mathlib.Algebra.Field.Rat

namespace CriteriaSql

/-! ### Numbers -/

/-- The value of a decimal number. -/
def Number.Decimal.value (d : Decimal) : ℚ :=
  d.digits * 10 ^ d.exponent

/-- The value that a number has where its text is read as a decimal. -/
def JsonNumber.numeric : JsonNumber → ℚ
  | .int n => n
  | .double d =>
    if d.isNegative then -(Number.Decimal.shortest d).value else (Number.Decimal.shortest d).value

namespace Json

/-! ### Containment -/

mutual

/-- The first value contains the second. -/
inductive Contains : Json → Json → Prop
  | null : Contains .null .null
  | bool (b : Bool) : Contains (.bool b) (.bool b)
  | num {m n : JsonNumber} (h : m.numeric = n.numeric) : Contains (.num m) (.num n)
  | str (s : String) : Contains (.str s) (.str s)
  | arr {ls rs : List Json} (h : ∀ r ∈ rs, ItemContains ls r) : Contains (.arr ls) (.arr rs)
  | obj {ls rs : Members} (h : ∀ name r, rs.get? name = some r → MemberContains ls name r) :
      Contains (.obj ls) (.obj rs)

/-- Some item contains the value. -/
inductive ItemContains : List Json → Json → Prop
  | intro {ls : List Json} {l r : Json} (hmem : l ∈ ls) (h : Contains l r) : ItemContains ls r

/-- There is a member of the name, and it contains the value. -/
inductive MemberContains : Members → String → Json → Prop
  | intro {ls : Members} {name : String} {l r : Json} (hget : ls.get? name = some l)
      (h : Contains l r) : MemberContains ls name r

end

theorem memberContains_iff {ls : Members} {name : String} {r : Json} :
    MemberContains ls name r ↔ ∃ l, ls.get? name = some l ∧ Contains l r := by
  constructor
  · rintro ⟨hget, h⟩
    exact ⟨_, hget, h⟩
  · rintro ⟨l, hget, h⟩
    exact .intro hget h

/-- An object contains another when it has all of its members. -/
theorem contains_obj_iff {ls rs : Members} :
    Contains (.obj ls) (.obj rs)
      ↔ ∀ name r, rs.get? name = some r → ∃ l, ls.get? name = some l ∧ Contains l r := by
  constructor
  · rintro ⟨⟩ name r hget
    next h => exact memberContains_iff.mp (h name r hget)
  · intro h
    exact .obj fun name r hget => memberContains_iff.mpr (h name r hget)

/-- Every value contains itself. -/
theorem Contains.refl : ∀ v : Json, Contains v v
  | .null => .null
  | .bool b => .bool b
  | .num _ => .num rfl
  | .str s => .str s
  | .arr items => .arr fun r hr => .intro hr (Contains.refl r)
  | .obj members => .obj fun name r hget => .intro hget (Contains.refl r)
termination_by v => sizeOf v
decreasing_by
  · have hlt := List.sizeOf_lt_of_mem hr
    rw [Json.arr.sizeOf_spec]
    omega
  · have hlt := List.sizeOf_lt_of_mem (Members.mem_of_get? hget)
    rw [Prod.mk.sizeOf_spec] at hlt
    rw [Json.obj.sizeOf_spec]
    omega

/-! ### Paths of names -/

/-- The value at the end of a path of names through objects. -/
def follow : Json → List String → Option Json
  | v, [] => some v
  | .obj ms, name :: names => (Members.get? ms name).bind fun inner => inner.follow names
  | _, _ :: _ => none

@[simp] theorem follow_nil (v : Json) : v.follow [] = some v := by
  rw [follow]

theorem follow_obj (ms : Members) (name : String) (names : List String) :
    (Json.obj ms).follow (name :: names) = (ms.get? name).bind fun inner => inner.follow names := by
  rw [follow]

/-- An object of one member is contained where the object has a member of that
name that contains the value. -/
theorem contains_single_iff (body : Json) (name : String) (inner : Json) :
    Contains body (.obj [(name, inner)])
      ↔ ∃ (members : Members) (l : Json), body = .obj members ∧ members.get? name = some l
          ∧ Contains l inner := by
  constructor
  · intro h
    cases h with
    | @obj members _ h =>
      obtain ⟨l, hget, hl⟩ := memberContains_iff.mp (h name inner (if_pos rfl))
      exact ⟨members, l, rfl, hget, hl⟩
  · rintro ⟨members, l, rfl, hget, hl⟩
    refine contains_obj_iff.mpr ?_
    intro name' r hr
    rw [Members.get?] at hr
    split at hr
    · next hname =>
      subst hname
      obtain rfl := Option.some.inj hr
      exact ⟨l, hget, hl⟩
    · cases hr

/-- A document with nothing but a value at the end of a path is contained
exactly where following the path reaches a value that contains it. -/
theorem contains_iff_of_onlyAt {value document : Json} {names : List String}
    (h : value.OnlyAt names document) (body : Json) :
    Contains body document ↔ ∃ found, body.follow names = some found ∧ Contains found value := by
  -- each name of the path is one object of one member, from the outside in
  induction h generalizing body with
  | here =>
    constructor
    · intro hbody
      exact ⟨body, follow_nil body, hbody⟩
    · rintro ⟨found, hfollow, hfound⟩
      rw [follow_nil] at hfollow
      exact Option.some.inj hfollow ▸ hfound
  | @inside name names inner _ ih =>
    rw [contains_single_iff]
    constructor
    · rintro ⟨members, l, rfl, hget, hl⟩
      obtain ⟨found, hfollow, hfound⟩ := (ih l).mp hl
      refine ⟨found, ?_, hfound⟩
      rw [follow_obj, hget, Option.bind_some, hfollow]
    · rintro ⟨found, hfollow, hfound⟩
      cases body with
      | obj members =>
        rw [follow_obj] at hfollow
        obtain ⟨l, hget, hfollow⟩ := Option.bind_eq_some_iff.mp hfollow
        exact ⟨members, l, rfl, hget, (ih l).mpr ⟨found, hfollow, hfound⟩⟩
      | null | bool | num | str | arr => cases hfollow

end Json

end CriteriaSql
