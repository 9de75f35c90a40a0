/-
CriteriaSql/Json/Basic.lean

JSON values.  The members of an object keep the order in which their names
were first inserted; inserting a name again replaces its value in place.

Main statements: what `Members.insert` does to a later look-up
(`get?_insert_self`, `get?_insert_of_ne`) and to the order of the names
(`names_insert`).
-/
import CriteriaSql.Number.Double
import CriteriaSql.Number.Power

namespace CriteriaSql

open Number (Double)

/-- A JSON number: an integer that fits 64 bits, with or without a sign, or a
double. -/
inductive JsonNumber where
  | int (n : Int)
  | double (d : Double)
deriving DecidableEq, Repr

/-- A JSON value. -/
inductive Json where
  | null
  | bool (b : Bool)
  | num (n : JsonNumber)
  | str (s : String)
  | arr (items : List Json)
  | obj (members : List (String × Json))
deriving Repr, Inhabited

/-- The members of an object, in order. -/
abbrev Members := List (String × Json)

namespace JsonNumber

/-- Whether an integer fits a signed or an unsigned 64-bit word. -/
def fits (n : Int) : Bool :=
  -(pow2 63 : Int) ≤ n && n < pow2 64

/-- The number as a double, rounded to nearest. -/
def toDouble : JsonNumber → Double
  | .int n => Double.ofInt n
  | .double d => d

end JsonNumber

namespace Json

/-- The JSON integer `n`. -/
def ofInt (n : Int) : Json :=
  .num (.int n)

/-- The JSON integer `n`. -/
def ofNat (n : Nat) : Json :=
  .num (.int n)

/-- The list of the given texts. -/
def ofStrings (ss : List String) : Json :=
  .arr (ss.map .str)

/-- `null` in place of an absent value. -/
def ofOption {α : Type} (f : α → Json) : Option α → Json
  | none => .null
  | some a => f a

def isNull : Json → Bool
  | .null => true
  | _ => false

def isArr : Json → Bool
  | .arr _ => true
  | _ => false

def isObj : Json → Bool
  | .obj _ => true
  | _ => false

end Json

namespace Members

/-- The value of the member with the given name. -/
def get? : Members → String → Option Json
  | [], _ => none
  | (k, v) :: ms, name => if k = name then some v else get? ms name

/-- The value of the member with the given name, `null` when there is none. -/
def getD (ms : Members) (name : String) : Json :=
  (ms.get? name).getD .null

/-- The names of the members, in order. -/
def names (ms : Members) : List String :=
  ms.map Prod.fst

/-- Set a member: in place when the name is present, at the end otherwise. -/
def insert : Members → String → Json → Members
  | [], name, value => [(name, value)]
  | (k, v) :: ms, name, value =>
    if k = name then (k, value) :: ms else (k, v) :: insert ms name value

@[simp] theorem get?_nil (name : String) : get? [] name = none := rfl

@[simp] theorem get?_insert_self (ms : Members) (name : String) (value : Json) :
    (ms.insert name value).get? name = some value := by
  induction ms with
  | nil => simp [insert, get?]
  | cons m ms ih =>
    obtain ⟨k, v⟩ := m
    by_cases h : k = name
    · simp [insert, get?, h]
    · simp [insert, get?, h, ih]

theorem get?_insert_of_ne (ms : Members) {name other : String} (value : Json)
    (h : other ≠ name) : (ms.insert name value).get? other = ms.get? other := by
  induction ms with
  | nil => simp [insert, get?, Ne.symm h]
  | cons m ms ih =>
    obtain ⟨k, v⟩ := m
    by_cases hk : k = name
    · subst hk
      simp [insert, get?, Ne.symm h]
    · simp [insert, get?, hk, ih]

theorem get?_eq_none_iff (ms : Members) (name : String) :
    ms.get? name = none ↔ name ∉ ms.names := by
  induction ms with
  | nil => simp [names]
  | cons m ms ih =>
    obtain ⟨k, v⟩ := m
    by_cases h : k = name
    · simp [get?, names, h]
    · have : ¬ name = k := fun e => h e.symm
      simp only [get?, if_neg h, ih]
      simp [names, this]

/-- A name that is new goes to the end; no other name moves. -/
theorem names_insert (ms : Members) (name : String) (value : Json) :
    (ms.insert name value).names
      = if name ∈ ms.names then ms.names else ms.names ++ [name] := by
  induction ms with
  | nil => simp [insert, names]
  | cons m ms ih =>
    obtain ⟨k, v⟩ := m
    by_cases h : k = name
    · simp [insert, names, h]
    · have hk : ¬ name = k := fun e => h e.symm
      simp only [names] at ih
      simp only [insert, if_neg h, names, List.map_cons, ih, List.mem_cons, hk, false_or]
      by_cases hm : name ∈ ms.map Prod.fst <;> simp [hm]

end Members

end CriteriaSql
