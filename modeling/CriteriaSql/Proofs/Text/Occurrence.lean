/-
CriteriaSql/Proofs/Text/Occurrence.lean

Where an ASCII name occurs in the lower-case form of a text.

Lower case looks at the neighbours of a character only to choose between the two
small sigmas, and an ASCII name holds neither.  So such a name occurs in the
form of a text just where it occurs in the forms of the characters, each taken
alone (`infix_lowercase_iff`), which is why neither more text around it
(`infix_lowercase_append`) nor the case of ASCII letters
(`infix_lowercase_ascii_iff`) can hide a name.

Trimming drops blanks at the ends only: what it leaves of a text it leaves of a
longer one too (`infix_trim_append`), and it leaves the same when there are more
blanks around (`trim_append_blanks`).
-/
import CriteriaSql.Text.Blank
import CriteriaSql.Text.Lowercase
import Mathlib.Data.List.Infix

namespace CriteriaSql.Text

/-! ### Characters in lower case -/

/-- The lower-case form of a character that stands alone. -/
def lowerAlone (c : Char) : List Char :=
  if c = 'Σ' then ['σ'] else lowerChar c

/-- The two small sigmas as one. -/
def plainSigma (c : Char) : Char :=
  if c = 'ς' then 'σ' else c

theorem plainSigma_lowerSigma (before after : List Char) :
    plainSigma (lowerSigma before after) = 'σ' := by
  unfold lowerSigma
  split <;> rfl

/-- Up to the choice of the sigma, lower case goes character by character. -/
theorem map_plainSigma_lowerFrom (before cs : List Char) :
    (lowerFrom before cs).map plainSigma = (cs.flatMap lowerAlone).map plainSigma := by
  induction cs generalizing before with
  | nil => rfl
  | cons c cs ih =>
    rw [lowerFrom, List.flatMap_cons, List.map_append, List.map_append, ih, lowerAlone]
    by_cases hc : c = 'Σ'
    · rw [if_pos hc, if_pos hc, List.map_singleton, plainSigma_lowerSigma]
      rfl
    · rw [if_neg hc, if_neg hc]

/-! ### Names in a text -/

/-- All characters are ASCII. -/
def IsAscii (cs : List Char) : Prop :=
  ∀ c ∈ cs, c.toNat < 128

instance (cs : List Char) : Decidable (IsAscii cs) :=
  List.decidableBAll (fun c : Char => c.toNat < 128) cs

variable {name : List Char}

theorem plainSigma_eq_iff {c d : Char} (hd : d.toNat < 128) : plainSigma c = d ↔ c = d := by
  unfold plainSigma
  split
  · next hc =>
    subst hc
    constructor <;>
      · rintro rfl
        exact absurd hd (by decide)
  · rfl

theorem map_plainSigma_eq_iff (hname : IsAscii name) {cs : List Char} :
    cs.map plainSigma = name ↔ cs = name := by
  induction name generalizing cs with
  | nil => exact List.map_eq_nil_iff
  | cons d name ih =>
    obtain ⟨hd, hname⟩ := List.forall_mem_cons.mp hname
    rcases cs with - | ⟨c, cs⟩
    · exact ⟨nofun, nofun⟩
    · rw [List.map_cons, List.cons.injEq, List.cons.injEq, plainSigma_eq_iff hd, ih hname]

theorem infix_map_plainSigma_iff (hname : IsAscii name) {cs : List Char} :
    name <:+: cs.map plainSigma ↔ name <:+: cs := by
  rw [List.infix_map_iff]
  constructor
  · rintro ⟨part, hpart, hmap⟩
    obtain rfl := (map_plainSigma_eq_iff hname).mp hmap.symm
    exact hpart
  · intro h
    exact ⟨name, h, ((map_plainSigma_eq_iff hname).mpr rfl).symm⟩

/-- An ASCII name is found in the forms of the single characters. -/
theorem infix_lowercase_iff (hname : IsAscii name) {cs : List Char} :
    name <:+: lowercase cs ↔ name <:+: cs.flatMap lowerAlone := by
  rw [← infix_map_plainSigma_iff hname, lowercase, map_plainSigma_lowerFrom,
    infix_map_plainSigma_iff hname]

/-- More text around a name does not hide it. -/
theorem infix_lowercase_append (hname : IsAscii name) {cs ds : List Char} (hcs : cs <:+: ds)
    (h : name <:+: lowercase cs) : name <:+: lowercase ds := by
  obtain ⟨before, after, rfl⟩ := hcs
  rw [infix_lowercase_iff hname] at h ⊢
  rw [List.flatMap_append, List.flatMap_append]
  exact h.trans (List.infix_append _ _ _)

/-! ### The case of ASCII letters -/

theorem toLower_of_not_ascii {c : Char} (h : ¬c.toNat < 128) : c.toLower = c := by
  unfold Char.toLower
  split
  · next hc =>
    have hle : c.toNat ≤ 90 := hc.2
    omega
  · rfl

theorem lowerAlone_toLower (c : Char) : lowerAlone c.toLower = lowerAlone c := by
  by_cases h : c.toNat < 128
  · have hall : ∀ n < 128, lowerAlone (Char.ofNat n).toLower = lowerAlone (Char.ofNat n) := by
      decide +kernel
    rw [← Char.ofNat_toNat c, hall c.toNat h]
  · rw [toLower_of_not_ascii h]

theorem isBlank_toLower (c : Char) : isBlank c.toLower = isBlank c := by
  by_cases h : c.toNat < 128
  · have hall : ∀ n < 128, isBlank (Char.ofNat n).toLower = isBlank (Char.ofNat n) := by
      decide +kernel
    rw [← Char.ofNat_toNat c, hall c.toNat h]
  · rw [toLower_of_not_ascii h]

theorem flatMap_lowerAlone_asciiLowercase (cs : List Char) :
    (asciiLowercase cs).flatMap lowerAlone = cs.flatMap lowerAlone := by
  rw [asciiLowercase, List.flatMap_map]
  simp only [lowerAlone_toLower]

theorem infix_lowercase_ascii_iff (hname : IsAscii name) {cs ds : List Char}
    (h : asciiLowercase cs = asciiLowercase ds) :
    name <:+: lowercase cs ↔ name <:+: lowercase ds := by
  rw [infix_lowercase_iff hname, infix_lowercase_iff hname,
    ← flatMap_lowerAlone_asciiLowercase cs, h, flatMap_lowerAlone_asciiLowercase]

theorem asciiLowercase_trim (cs : List Char) :
    asciiLowercase (trim cs) = trim (asciiLowercase cs) := by
  have hblank : isBlank ∘ Char.toLower = isBlank := funext isBlank_toLower
  simp only [asciiLowercase, trim, trimStart, trimEnd, ← List.map_reverse, List.dropWhile_map,
    hblank]

/-! ### Blanks at the ends -/

theorem isBlank_of_head?_trimStart {cs : List Char} :
    ∀ c ∈ (trimStart cs).head?, isBlank c = false := by
  intro c hc
  have h := List.head?_dropWhile_not isBlank cs
  rw [trimStart, Option.mem_def] at hc
  rwa [hc] at h

theorem isBlank_of_getLast?_trimEnd {cs : List Char} :
    ∀ c ∈ (trimEnd cs).getLast?, isBlank c = false := by
  intro c hc
  rw [trimEnd, List.getLast?_reverse] at hc
  exact isBlank_of_head?_trimStart c hc

/-- Trimming goes up to the first and the last character that is not blank. -/
theorem trim_append {cs : List Char} (hne : cs ≠ [])
    (hfirst : ∀ c ∈ cs.head?, isBlank c = false) (hlast : ∀ c ∈ cs.getLast?, isBlank c = false)
    (before after : List Char) :
    trim (before ++ (cs ++ after)) = trimStart before ++ (cs ++ trimEnd after) := by
  have hstart : trimStart (before ++ (cs ++ after)) = trimStart before ++ (cs ++ after) := by
    have hkeep : (cs ++ after).dropWhile isBlank = cs ++ after := by
      apply dropWhile_isBlank_eq_self
      rwa [List.head?_append_of_ne_nil _ hne]
    rw [trimStart, List.dropWhile_append, hkeep]
    split
    · next h => rw [trimStart, List.isEmpty_iff.mp h, List.nil_append]
    · rfl
  have hends : ∀ c ∈ (trimStart before ++ cs).getLast?, isBlank c = false := by
    rwa [List.getLast?_append_of_ne_nil _ hne]
  rw [trim, hstart, ← List.append_assoc, trimEnd_append hends, List.append_assoc]

/-- A text is its trimmed form with blanks around it, in any surroundings. -/
theorem exists_blanks_trim (cs : List Char) :
    ∃ front back, (∀ c ∈ front, isBlank c = true) ∧ (∀ c ∈ back, isBlank c = true)
      ∧ ∀ before after,
        before ++ (cs ++ after) = before ++ front ++ (trim cs ++ (back ++ after)) := by
  obtain ⟨back, hback, h⟩ := exists_trimEnd_append (trimStart cs)
  refine ⟨cs.takeWhile isBlank, back, ?_, hback, fun before after => ?_⟩
  · exact fun c hc => List.all_eq_true.mp List.all_takeWhile c hc
  · have hcs : cs = cs.takeWhile isBlank ++ (trim cs ++ back) := by
      rw [trim, h, trimStart, List.takeWhile_append_dropWhile]
    conv_lhs => rw [hcs]
    simp only [List.append_assoc]

theorem isBlank_of_head?_trim {cs : List Char} : ∀ c ∈ (trim cs).head?, isBlank c = false := by
  intro c hc
  obtain ⟨blanks, -, h⟩ := exists_trimEnd_append (trimStart cs)
  have hhead : (trimStart cs).head? = some c := by
    rw [← h, List.head?_append, ← trim, Option.mem_def.mp hc]
    rfl
  exact isBlank_of_head?_trimStart c hhead

theorem isBlank_of_getLast?_trim {cs : List Char} :
    ∀ c ∈ (trim cs).getLast?, isBlank c = false :=
  isBlank_of_getLast?_trimEnd

/-- What trimming leaves of a text, it leaves of the text with more around it. -/
theorem infix_trim_append (before cs after : List Char) :
    trim cs <:+: trim (before ++ (cs ++ after)) := by
  by_cases hne : trim cs = []
  · rw [hne]
    exact List.nil_infix
  · obtain ⟨front, back, -, -, hsplit⟩ := exists_blanks_trim cs
    rw [hsplit, trim_append hne isBlank_of_head?_trim isBlank_of_getLast?_trim]
    exact List.infix_append' _ _ _

/-- More blanks around a text make no difference. -/
theorem trim_append_blanks {before after : List Char} (hbefore : ∀ c ∈ before, isBlank c = true)
    (cs : List Char) (hafter : ∀ c ∈ after, isBlank c = true) :
    trim (before ++ (cs ++ after)) = trim cs := by
  obtain ⟨front, back, hfront, hback, hsplit⟩ := exists_blanks_trim cs
  rw [hsplit]
  exact trim_blanks_append (List.forall_mem_append.mpr ⟨hbefore, hfront⟩) isBlank_of_head?_trim
    isBlank_of_getLast?_trim (List.forall_mem_append.mpr ⟨hback, hafter⟩)

end CriteriaSql.Text
