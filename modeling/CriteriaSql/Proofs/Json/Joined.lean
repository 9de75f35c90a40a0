/-
CriteriaSql/Proofs/Json/Joined.lean

Lists between brackets.

The items of an array and the members of an object are written one way, with a
comma between each two and the closing character behind the last (`joined`), and
read one way.  What is read of the whole list is what is read of each item, as
long as no item begins with a blank or with the closing character
(`bracketed_joined`); and nothing is in a list that has been read but what its
items have been read as (`exists_of_mem_bracketed`).
-/
import CriteriaSql.Json.Parser

namespace CriteriaSql

namespace Json

variable {α β : Type}

/-! ### Writing -/

/-- The items that are left of a list, and its closing character. -/
def joined (closing : Char) (write : α → List Char) : List α → List Char
  | [] => [closing]
  | a :: [] => write a ++ [closing]
  | a :: b :: as => write a ++ ',' :: joined closing write (b :: as)

theorem joined_cons (closing : Char) (write : α → List Char) (a : α) (as : List α) :
    joined closing write (a :: as)
      = write a ++ (if as = [] then [closing] else ',' :: joined closing write as) := by
  rcases as with - | ⟨b, as⟩
  · rfl
  · rw [joined, if_neg (List.cons_ne_nil b as)]

/-! ### Blanks -/

/-- A text begins with a character that the reader does not pass over. -/
def Starts (cs : List Char) : Prop :=
  ∃ c t, cs = c :: t ∧ isSpacing c = false

theorem skip_cons {c : Char} (hc : isSpacing c = false) (cs : List Char) :
    skip (c :: cs) = c :: cs := by
  rw [skip, List.dropWhile_cons_of_neg (by simp [hc])]

theorem Starts.skip_append {cs : List Char} (h : Starts cs) (r : List Char) :
    skip (cs ++ r) = cs ++ r := by
  obtain ⟨c, t, rfl, hc⟩ := h
  exact skip_cons hc (t ++ r)

/-! ### Reading -/

section

variable {closing : Char} {item : Reader β} {cs rest : List Char} {b : β}

theorem separated_of_none (h : item (skip cs) = none) : separated closing item cs = none := by
  rw [separated, h]

/-- The closing character ends the list. -/
theorem separated_of_closing (hclosing : isSpacing closing = false)
    (h : item (skip cs) = some (b, closing :: rest)) :
    separated closing item cs = some ([b], rest) := by
  rw [separated, h]
  dsimp only
  rw [skip_cons hclosing]
  exact if_pos rfl

/-- Behind a comma the list goes on. -/
theorem separated_of_comma (hclosing : ',' ≠ closing)
    (h : item (skip cs) = some (b, ',' :: rest)) (hlength : rest.length < cs.length) :
    separated closing item cs = (separated closing item rest).map fun r => (b :: r.1, r.2) := by
  rw [separated, h]
  dsimp only
  rw [skip_cons rfl]
  dsimp only
  rw [if_neg hclosing, if_pos rfl, if_pos hlength]

/-- Every item of a list that has been read has been read at some place. -/
theorem exists_of_mem_separated {r : List β × List Char}
    (h : separated closing item cs = some r) : ∀ b ∈ r.1, ∃ ds q, item ds = some (b, q) := by
  fun_induction separated closing item cs generalizing r with
  | case1 => cases h
  | case2 => cases h
  | case3 cs b rest hitem rest' hskip =>
    obtain rfl := Option.some.inj h
    intro b' hb'
    rw [List.mem_singleton.mp hb']
    exact ⟨_, _, hitem⟩
  | case4 cs b rest hitem rest' hlength hskip hclosing ih =>
    obtain ⟨q, hq, rfl⟩ := Option.map_eq_some_iff.mp h
    intro b' hb'
    rcases List.mem_cons.mp hb' with rfl | hb'
    · exact ⟨_, _, hitem⟩
    · exact ih hq b' hb'
  | case5 => cases h
  | case6 => cases h

theorem exists_of_mem_bracketed {r : List β × List Char}
    (h : bracketed closing item cs = some r) : ∀ b ∈ r.1, ∃ ds q, item ds = some (b, q) := by
  unfold bracketed at h
  split at h
  · cases h
  · split at h
    · obtain rfl := Option.some.inj h
      exact fun b hb => absurd hb List.not_mem_nil
    · exact exists_of_mem_separated h

end

/-! ### Reading what has been written -/

/-- What follows an item of a list that has been written. -/
def EndsValue (r : List Char) : Prop :=
  ∀ c ∈ r.head?, c = ',' ∨ c = ']' ∨ c = '\x7d'

section

variable {closing : Char} (hclosing : closing = ']' ∨ closing = '\x7d') {item : Reader β}
  {write : α → List Char} {back : α → Option β} {as : List α}
  (hstarts : ∀ a ∈ as, Starts (write a))
  (hread : ∀ a ∈ as, ∀ r, EndsValue r → item (write a ++ r) = (back a).map fun b => (b, r))

include hclosing

theorem isSpacing_closing : isSpacing closing = false := by
  rcases hclosing with rfl | rfl <;> rfl

theorem endsValue_rest (write : α → List Char) (as : List α) (r : List Char) :
    EndsValue ((if as = [] then [closing] else ',' :: joined closing write as) ++ r) := by
  split
  · rintro c hc
    obtain rfl := Option.some.inj hc
    exact .inr hclosing
  · rintro c hc
    obtain rfl := Option.some.inj hc
    exact .inl rfl

include hstarts hread

/-- A list that has items reads back when each of them does. -/
theorem separated_joined (hne : as ≠ []) (r : List Char) :
    separated closing item (joined closing write as ++ r)
      = (as.mapM back).map fun bs => (bs, r) := by
  induction as with
  | nil => exact absurd rfl hne
  | cons a as ih =>
    have hspacing := isSpacing_closing hclosing
    have hitem := hread a List.mem_cons_self _ (endsValue_rest hclosing write as r)
    rw [joined_cons, List.append_assoc, List.mapM_cons]
    rw [← (hstarts a List.mem_cons_self).skip_append] at hitem
    rcases hback : back a with - | b
    · rw [hback] at hitem
      exact separated_of_none hitem
    · rw [hback, Option.map_some] at hitem
      by_cases hnil : as = []
      · rw [if_pos hnil] at hitem ⊢
        rw [separated_of_closing hspacing hitem, hnil]
        rfl
      · rw [if_neg hnil] at hitem ⊢
        rw [List.cons_append] at hitem ⊢
        have hcomma : ',' ≠ closing := by
          rcases hclosing with rfl | rfl <;> decide
        rw [separated_of_comma hcomma hitem (by simp; omega),
          ih (fun b hb => hstarts b (List.mem_cons_of_mem a hb))
            (fun b hb => hread b (List.mem_cons_of_mem a hb)) hnil]
        rcases as.mapM back with - | bs <;> rfl

/-- A list reads back when each of its items does. -/
theorem bracketed_joined (hne : ∀ a ∈ as, ∀ t, write a ≠ closing :: t) (r : List Char) :
    bracketed closing item (joined closing write as ++ r)
      = (as.mapM back).map fun bs => (bs, r) := by
  rcases as with - | ⟨a, as⟩
  · show bracketed closing item (closing :: r) = _
    rw [bracketed, skip_cons (isSpacing_closing hclosing)]
    exact if_pos rfl
  · obtain ⟨c, t, hwrite, hc⟩ := hstarts a List.mem_cons_self
    have hcons : joined closing write (a :: as) ++ r
        = c :: (t ++ ((if as = [] then [closing] else ',' :: joined closing write as) ++ r)) := by
      rw [joined_cons, hwrite, List.append_assoc, List.cons_append]
    have hne' : c ≠ closing := by
      rintro rfl
      exact hne a List.mem_cons_self t hwrite
    rw [← separated_joined hclosing hstarts hread (List.cons_ne_nil a as), hcons, bracketed,
      skip_cons hc]
    exact if_neg hne'

end

end Json

end CriteriaSql
