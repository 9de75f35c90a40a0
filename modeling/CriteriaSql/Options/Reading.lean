/-
CriteriaSql/Options/Reading.lean

How single options are read from JSON values.  In most places null stands for
an option that is absent.
-/
import CriteriaSql.Error

namespace CriteriaSql.OptionValue

/-- A boolean, which may not be null. -/
def flag : Json → Except OptionsFault Bool
  | .bool b => .ok b
  | _ => .error (.mistyped "a boolean")

/-- A text, if any. -/
def text? : Json → Except OptionsFault (Option String)
  | .null => .ok none
  | .str s => .ok (some s)
  | _ => .error (.mistyped "a string")

/-- A count, if any: an integer that is not negative. -/
def count? : Json → Except OptionsFault (Option Nat)
  | .null => .ok none
  | .num (.int n) => if 0 ≤ n then .ok (some n.toNat) else .error (.mistyped "a count")
  | _ => .error (.mistyped "a count")

/-- Texts only. -/
def texts : List Json → Except OptionsFault (List String)
  | [] => .ok []
  | .str s :: items => do
    let ss ← texts items
    return s :: ss
  | _ :: _ => .error (.mistyped "a string")

/-- No text, one text, or a list of texts. -/
def oneOrMany : Json → Except OptionsFault (List String)
  | .null => .ok []
  | .str s => .ok [s]
  | .arr items => texts items
  | _ => .error (.mistyped "a string or a list of strings")

/-- The texts of an object under their names. -/
def expressionsOf : List (String × Json) → Except OptionsFault (List (String × String))
  | [] => .ok []
  | (name, .str sql) :: members => do
    let rest ← expressionsOf members
    return (name, sql) :: rest
  | (name, got) :: _ => .error (.expression name got)

/-- No expressions, or an object of texts. -/
def expressions : Json → Except OptionsFault (List (String × String))
  | .null => .ok []
  | .obj members => expressionsOf members
  | _ => .error (.mistyped "an object of strings")

end CriteriaSql.OptionValue
