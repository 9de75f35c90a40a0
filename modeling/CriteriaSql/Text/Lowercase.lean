/-
CriteriaSql/Text/Lowercase.lean

Lower case of a text by the full rules of the Unicode standard: a character may
become two, and the capital sigma at the end of a word has a form of its own.
-/
import CriteriaSql.Text.CaseTable

namespace CriteriaSql.Text

/-! ### Classes of characters -/

/-- Whether a code point lies in one of the closed ranges. -/
def inRanges (ranges : List (Nat × Nat)) (n : Nat) : Bool :=
  ranges.any fun r => r.1 ≤ n && n ≤ r.2

/-- Passed over when the neighbours of a letter are looked at. -/
def isCaseIgnorable (c : Char) : Bool :=
  inRanges caseIgnorableRanges c.toNat

/-- A letter with case, among the characters that are not passed over. -/
def isCased (c : Char) : Bool :=
  inRanges casedRanges c.toNat

/-! ### The sigma at the end of a word -/

/-- Whether the first character that is not passed over is cased. -/
def meetsCased (cs : List Char) : Bool :=
  match cs.dropWhile isCaseIgnorable with
  | [] => false
  | c :: _ => isCased c

/-- The lower-case sigma after the characters `before` (nearest first) and in
front of the characters `after`: the final form where a word ends. -/
def lowerSigma (before after : List Char) : Char :=
  if meetsCased before && !meetsCased after then 'ς' else 'σ'

/-! ### Lower case -/

/-- Whether the code point is one of the run. -/
def LowerRun.covers (r : LowerRun) (n : Nat) : Bool :=
  r.first ≤ n && n ≤ r.last && (n - r.first) % r.step == 0

/-- The lower-case form of one character, the capital sigma apart. -/
def lowerChar (c : Char) : List Char :=
  if c.toNat < 128 then [c.toLower]
  else if c = 'İ' then ['i', '\u0307']
  else
    match lowerRuns.find? (·.covers c.toNat) with
    | some r => [Char.ofNat (c.toNat + r.delta).toNat]
    | none => [c]

/-- The lower-case form of a text that stands after the characters `before`,
nearest first. -/
def lowerFrom (before : List Char) : List Char → List Char
  | [] => []
  | c :: cs =>
    (if c = 'Σ' then [lowerSigma before cs] else lowerChar c) ++ lowerFrom (c :: before) cs

/-- The lower-case form of a text. -/
def lowercase (cs : List Char) : List Char :=
  lowerFrom [] cs

/-- Lower case of the ASCII letters only. -/
def asciiLowercase (cs : List Char) : List Char :=
  cs.map Char.toLower

end CriteriaSql.Text
