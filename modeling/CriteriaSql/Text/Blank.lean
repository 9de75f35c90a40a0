/-
CriteriaSql/Text/Blank.lean

Blank characters (the Unicode property White_Space), trimming, and the split
of a text into words.

Main statements: a text with no blank at its ends is its own trimmed form
(`trim_eq_self`), which is what trimming leaves when there are blanks around it
(`trim_blanks_append`), and blanks around a text do not change its words
(`words_blanks_append`, `words_trimEnd`).
-/

namespace CriteriaSql.Text

/-! ### The property -/

/-- A character is blank when it has the Unicode property White_Space.  The
zero-width space U+200B, U+180E and U+FEFF do not have it. -/
def isBlank (c : Char) : Bool :=
  let n := c.toNat
  (9 ≤ n && n ≤ 13) || n == 0x20 || n == 0x85 || n == 0xA0 || n == 0x1680 ||
    (0x2000 ≤ n && n ≤ 0x200A) || n == 0x2028 || n == 0x2029 || n == 0x202F ||
    n == 0x205F || n == 0x3000

/-! ### Trimming -/

/-- Drop the blanks in front. -/
def trimStart (cs : List Char) : List Char :=
  cs.dropWhile isBlank

/-- Drop the blanks at the end. -/
def trimEnd (cs : List Char) : List Char :=
  (cs.reverse.dropWhile isBlank).reverse

/-- Drop the blanks at both ends. -/
def trim (cs : List Char) : List Char :=
  trimEnd (trimStart cs)

@[simp] theorem trim_nil : trim [] = [] := rfl

theorem dropWhile_isBlank_eq_self {cs : List Char} (h : ∀ c ∈ cs.head?, isBlank c = false) :
    cs.dropWhile isBlank = cs := by
  rcases cs with - | ⟨c, cs⟩
  · rfl
  · rw [List.dropWhile_cons_of_neg]
    simp [h c rfl]

theorem exists_trimEnd_append (cs : List Char) :
    ∃ blanks, (∀ c ∈ blanks, isBlank c = true) ∧ trimEnd cs ++ blanks = cs := by
  refine ⟨(cs.reverse.takeWhile isBlank).reverse, ?_, ?_⟩
  · intro c hc
    exact List.all_eq_true.mp List.all_takeWhile c (List.mem_reverse.mp hc)
  · rw [trimEnd, ← List.reverse_append, List.takeWhile_append_dropWhile, List.reverse_reverse]

/-- Trimming does not reach behind a character that is not blank. -/
theorem trimEnd_append {cs : List Char} (hlast : ∀ c ∈ cs.getLast?, isBlank c = false)
    (ds : List Char) : trimEnd (cs ++ ds) = cs ++ trimEnd ds := by
  have hcs : cs.reverse.dropWhile isBlank = cs.reverse := by
    apply dropWhile_isBlank_eq_self
    rwa [List.head?_reverse]
  rw [trimEnd, List.reverse_append, List.dropWhile_append, hcs]
  split
  · next hnil =>
    have : trimEnd ds = [] := by
      rw [trimEnd, List.isEmpty_iff.mp hnil, List.reverse_nil]
    rw [this, List.append_nil, List.reverse_reverse]
  · rw [List.reverse_append, List.reverse_reverse, trimEnd]

/-- A text with no blank at either end is left as it is. -/
theorem trim_eq_self {cs : List Char} (hfirst : ∀ c ∈ cs.head?, isBlank c = false)
    (hlast : ∀ c ∈ cs.getLast?, isBlank c = false) : trim cs = cs := by
  rw [trim, trimStart, dropWhile_isBlank_eq_self hfirst, trimEnd, dropWhile_isBlank_eq_self,
    List.reverse_reverse]
  rwa [List.head?_reverse]

theorem dropWhile_isBlank_eq_nil {cs : List Char} (h : ∀ c ∈ cs, isBlank c = true) :
    cs.dropWhile isBlank = [] := by
  have hdrop : (cs ++ []).dropWhile isBlank = [].dropWhile isBlank :=
    List.dropWhile_append_of_pos h
  rwa [List.append_nil] at hdrop

/-- Blanks around a text that has none at its ends are dropped. -/
theorem trim_blanks_append {before cs after : List Char} (hbefore : ∀ c ∈ before, isBlank c = true)
    (hfirst : ∀ c ∈ cs.head?, isBlank c = false) (hlast : ∀ c ∈ cs.getLast?, isBlank c = false)
    (hafter : ∀ c ∈ after, isBlank c = true) : trim (before ++ (cs ++ after)) = cs := by
  have hend : trimEnd after = [] := by
    rw [trimEnd, List.reverse_eq_nil_iff]
    exact dropWhile_isBlank_eq_nil fun c hc => hafter c (List.mem_reverse.mp hc)
  have hstart : trimStart (before ++ (cs ++ after)) = trimStart (cs ++ after) := by
    rw [trimStart, List.dropWhile_append_of_pos hbefore, trimStart]
  rcases cs with - | ⟨c, cs⟩
  · rw [trim, hstart, List.nil_append, trimStart, dropWhile_isBlank_eq_nil hafter]
    rfl
  · have hkeep : trimStart (c :: cs ++ after) = c :: cs ++ after :=
      dropWhile_isBlank_eq_self fun d hd => hfirst d hd
    rw [trim, hstart, hkeep, trimEnd_append hlast, hend, List.append_nil]

theorem mem_of_mem_trim {cs : List Char} {c : Char} (h : c ∈ trim cs) : c ∈ cs := by
  have hend : c ∈ (trimStart cs).reverse :=
    (List.dropWhile_sublist isBlank).subset (List.mem_reverse.mp h)
  exact (List.dropWhile_sublist isBlank).subset (List.mem_reverse.mp hend)

theorem trim_eq_self_of_all {cs : List Char} (h : ∀ c ∈ cs, isBlank c = false) :
    trim cs = cs :=
  trim_eq_self (fun c hc => h c (List.mem_of_head? hc)) fun c hc => h c (List.mem_of_getLast? hc)

/-! ### Words -/

/-- The words of a text: its maximal runs of characters that are not blank.
`word` holds the run read so far. -/
def wordsFrom (word : List Char) : List Char → List (List Char)
  | [] => if word.isEmpty then [] else [word]
  | c :: cs =>
    if isBlank c then
      if word.isEmpty then wordsFrom [] cs else word :: wordsFrom [] cs
    else wordsFrom (word ++ [c]) cs

/-- The maximal runs of characters that are not blank, in order. -/
def words (cs : List Char) : List (List Char) :=
  wordsFrom [] cs

/-- Blanks in front of a text do not change its words. -/
theorem words_blanks_append {blanks : List Char} (h : ∀ c ∈ blanks, isBlank c = true)
    (cs : List Char) : words (blanks ++ cs) = words cs := by
  induction blanks with
  | nil => rfl
  | cons b bs ih =>
    have hb : isBlank b = true := h b List.mem_cons_self
    show wordsFrom [] (b :: (bs ++ cs)) = words cs
    rw [wordsFrom, if_pos hb]
    exact ih fun c hc => h c (List.mem_cons_of_mem b hc)

theorem wordsFrom_append_blanks (word cs : List Char) {blanks : List Char}
    (h : ∀ c ∈ blanks, isBlank c = true) : wordsFrom word (cs ++ blanks) = wordsFrom word cs := by
  induction cs generalizing word with
  | nil =>
    -- the blanks end the word, as the end of the text does
    rcases blanks with - | ⟨b, bs⟩
    · rfl
    · have hb : isBlank b = true := h b List.mem_cons_self
      have hbs : wordsFrom [] bs = [] := by
        have := words_blanks_append (fun c hc => h c (List.mem_cons_of_mem b hc)) []
        rwa [List.append_nil] at this
      simp [wordsFrom, hb, hbs]
  | cons c cs ih => simp only [List.cons_append, wordsFrom, ih]

theorem words_trimEnd (cs : List Char) : words (trimEnd cs) = words cs := by
  obtain ⟨blanks, hblanks, hcs⟩ := exists_trimEnd_append cs
  calc words (trimEnd cs)
      = words (trimEnd cs ++ blanks) := (wordsFrom_append_blanks [] _ hblanks).symm
    _ = words cs := by rw [hcs]

end CriteriaSql.Text
