/-
CriteriaSql/Proofs/Outcome.lean

Computations that may fail: what is known of the steps of a computation that
has succeeded or failed, and when two computations succeed or fail together
(`Together`).
-/
import Mathlib.Data.List.Forall2

namespace CriteriaSql

variable {ε ε' α β : Type}

/-! ### Computations that have succeeded -/

/-- A sequence succeeds when both steps do. -/
theorem bind_eq_ok_iff {x : Except ε α} {f : α → Except ε β} {b : β} :
    (x >>= f) = .ok b ↔ ∃ a, x = .ok a ∧ f a = .ok b := by
  constructor
  · intro h
    rcases x with e | a
    · cases h
    · exact ⟨a, rfl, h⟩
  · rintro ⟨a, rfl, h⟩
    exact h

theorem map_eq_ok_iff {x : Except ε α} {f : α → β} {b : β} :
    x.map f = .ok b ↔ ∃ a, x = .ok a ∧ f a = b := by
  constructor
  · intro h
    rcases x with e | a
    · cases h
    · exact ⟨a, rfl, Except.ok.inj h⟩
  · rintro ⟨a, rfl, rfl⟩
    rfl

/-- Renaming the error does not touch a success. -/
theorem mapError_eq_ok_iff {x : Except ε α} {f : ε → ε'} {a : α} :
    x.mapError f = .ok a ↔ x = .ok a := by
  rcases x with e | a'
  · constructor <;> intro h <;> cases h
  · constructor <;> intro h <;> cases h <;> rfl

/-- A computation over a list succeeds with the values that it has for the items. -/
theorem mapM_eq_ok_iff {f : α → Except ε β} {xs : List α} {ys : List β} :
    xs.mapM f = .ok ys ↔ List.Forall₂ (fun x y => f x = .ok y) xs ys := by
  induction xs generalizing ys with
  | nil =>
    rw [List.forall₂_nil_left_iff]
    constructor
    · intro h
      exact (Except.ok.inj h).symm
    · rintro rfl
      rfl
  | cons x xs ih =>
    rw [List.mapM_cons, List.forall₂_cons_left_iff]
    constructor
    · intro h
      obtain ⟨y, hy, h⟩ := bind_eq_ok_iff.mp h
      obtain ⟨ys', hys', h⟩ := bind_eq_ok_iff.mp h
      exact ⟨y, ys', hy, ih.mp hys', (Except.ok.inj h).symm⟩
    · rintro ⟨y, ys', hy, hys', rfl⟩
      rw [hy, ih.mpr hys']
      rfl

/-- A list of items that are determined by their values is determined by the
list of these. -/
theorem mapM_eq_ok_iff_eq_map {f : α → Except ε β} {g : β → α}
    (h : ∀ x y, f x = .ok y ↔ x = g y) {xs : List α} {ys : List β} :
    xs.mapM f = .ok ys ↔ xs = ys.map g := by
  simp only [mapM_eq_ok_iff, h]
  rw [← List.forall₂_map_right_iff (R := (· = ·)), List.forall₂_eq_eq_eq]

/-- Every value of a list that has been mapped comes from one of its items. -/
theorem exists_of_mapM_eq_ok {f : α → Except ε β} {xs : List α} {ys : List β}
    (h : xs.mapM f = .ok ys) : ∀ y ∈ ys, ∃ x ∈ xs, f x = .ok y := by
  rw [mapM_eq_ok_iff] at h
  induction h with
  | nil => exact fun y hy => absurd hy List.not_mem_nil
  | @cons x y xs ys hxy _ ih =>
    rw [List.forall_mem_cons]
    refine ⟨⟨x, List.mem_cons_self, hxy⟩, fun z hz => ?_⟩
    obtain ⟨x', hx', hfx'⟩ := ih z hz
    exact ⟨x', List.mem_cons_of_mem x hx', hfx'⟩

theorem length_of_mapM_eq_ok {f : α → Except ε β} {xs : List α} {ys : List β}
    (h : xs.mapM f = .ok ys) : ys.length = xs.length :=
  (mapM_eq_ok_iff.mp h).length_eq.symm

/-- A computation over a list succeeds when it does for each item. -/
theorem exists_mapM_eq_ok_iff {f : α → Except ε β} {xs : List α} :
    (∃ ys, xs.mapM f = .ok ys) ↔ ∀ x ∈ xs, ∃ y, f x = .ok y := by
  induction xs with
  | nil => exact ⟨fun _ x hx => absurd hx List.not_mem_nil, fun _ => ⟨[], rfl⟩⟩
  | cons x xs ih =>
    rw [List.forall_mem_cons, ← ih]
    constructor
    · rintro ⟨ys, h⟩
      rw [List.mapM_cons] at h
      obtain ⟨y, hy, h⟩ := bind_eq_ok_iff.mp h
      obtain ⟨ys', hys', -⟩ := bind_eq_ok_iff.mp h
      exact ⟨⟨y, hy⟩, ys', hys'⟩
    · rintro ⟨⟨y, hy⟩, ys, hys⟩
      exact ⟨y :: ys, by rw [List.mapM_cons, hy, hys]; rfl⟩

/-- What is undone item by item is undone over the list. -/
theorem mapM_eq_some_of_mapM_eq_ok {f : α → Except ε β} {g : β → Option α} {xs : List α}
    {ys : List β} (h : xs.mapM f = .ok ys) (hg : ∀ x ∈ xs, ∀ y, f x = .ok y → g y = some x) :
    ys.mapM g = some xs := by
  rw [mapM_eq_ok_iff] at h
  induction h with
  | nil => rfl
  | @cons x y xs ys hxy _ ih =>
    obtain ⟨hx, hxs⟩ := List.forall_mem_cons.mp hg
    rw [List.mapM_cons, hx y hxy, ih hxs]
    rfl

theorem length_of_mapM_eq_some {f : α → Option β} {xs : List α} {ys : List β}
    (h : xs.mapM f = some ys) : ys.length = xs.length := by
  induction xs generalizing ys with
  | nil =>
    obtain rfl := Option.some.inj h
    rfl
  | cons x xs ih =>
    rw [List.mapM_cons] at h
    obtain ⟨y, -, h⟩ := Option.bind_eq_some_iff.mp h
    obtain ⟨ys', hys', h⟩ := Option.bind_eq_some_iff.mp h
    obtain rfl := Option.some.inj h
    rw [List.length_cons, List.length_cons, ih hys']

/-- Mapping the values of a computation over a list maps the list it yields. -/
theorem mapM_map_eq {γ : Type} (f : α → Except ε β) (g : β → γ) (xs : List α) :
    xs.mapM (fun x => (f x).map g) = (xs.mapM f).map (List.map g) := by
  induction xs with
  | nil => rfl
  | cons x xs ih =>
    rw [List.mapM_cons, List.mapM_cons, ih]
    rcases f x with e | y
    · rfl
    · rcases xs.mapM f with e | ys <;> rfl

/-! ### Computations that have failed -/

/-- A computation that never fails succeeds. -/
theorem exists_eq_ok_iff {x : Except ε α} : (∃ a, x = .ok a) ↔ ∀ e, x ≠ .error e := by
  constructor
  · rintro ⟨a, rfl⟩ e h
    cases h
  · intro h
    rcases x with e | a
    · exact absurd rfl (h e)
    · exact ⟨a, rfl⟩

theorem exists_of_toBool {x : Except ε α} (h : x.toBool = true) : ∃ a, x = .ok a := by
  rcases x with e | a
  · cases h
  · exact ⟨a, rfl⟩

/-- Two values are put together when both are there. -/
theorem exists_both_eq_ok_iff {γ : Type} {x : Except ε α} {y : Except ε β} {g : α → β → γ} :
    (∃ c, (do let a ← x; let b ← y; return g a b) = .ok c)
      ↔ (∃ a, x = .ok a) ∧ ∃ b, y = .ok b := by
  constructor
  · rintro ⟨c, h⟩
    obtain ⟨a, ha, h⟩ := bind_eq_ok_iff.mp h
    obtain ⟨b, hb, -⟩ := bind_eq_ok_iff.mp h
    exact ⟨⟨a, ha⟩, b, hb⟩
  · rintro ⟨⟨a, rfl⟩, b, rfl⟩
    exact ⟨g a b, rfl⟩

/-- A sequence fails in its first step, or in the second after the first. -/
theorem bind_eq_error_iff {x : Except ε α} {f : α → Except ε β} {e : ε} :
    (x >>= f) = .error e ↔ x = .error e ∨ ∃ a, x = .ok a ∧ f a = .error e := by
  rcases x with e' | a
  · constructor
    · intro h
      exact Or.inl (congrArg _ (Except.error.inj h))
    · rintro (h | ⟨a, h, -⟩)
      · exact congrArg _ (Except.error.inj h)
      · cases h
  · constructor
    · intro h
      exact Or.inr ⟨a, rfl, h⟩
    · rintro (h | ⟨a', h, hf⟩)
      · cases h
      · obtain rfl := Except.ok.inj h
        exact hf

/-- A sequence whose second step fails or not, whatever the first one yields. -/
theorem bind_eq_error_iff_of {x : Except ε α} {f : α → Except ε β} {e : ε} {P : Prop}
    (h : ∀ a, f a = .error e ↔ P) :
    (x >>= f) = .error e ↔ x = .error e ∨ (∀ e', x ≠ .error e') ∧ P := by
  rw [bind_eq_error_iff, ← exists_eq_ok_iff]
  apply or_congr_right
  constructor
  · rintro ⟨a, ha, hf⟩
    exact ⟨⟨a, ha⟩, (h a).mp hf⟩
  · rintro ⟨⟨a, ha⟩, hP⟩
    exact ⟨a, ha, (h a).mpr hP⟩

/-- What is done with a value at last does not fail. -/
theorem bind_pure_eq_error_iff {x : Except ε α} {f : α → β} {e : ε} :
    (x >>= fun a => pure (f a)) = .error e ↔ x = .error e := by
  rw [bind_eq_error_iff]
  constructor
  · rintro (h | ⟨a, -, h⟩)
    · exact h
    · cases h
  · exact Or.inl

/-- A computation over a list fails at the first item for which it does. -/
theorem mapM_eq_error_iff {f : α → Except ε β} {xs : List α} {e : ε} :
    xs.mapM f = .error e ↔ ∃ before x after ys,
      xs = before ++ x :: after ∧ before.mapM f = .ok ys ∧ f x = .error e := by
  induction xs with
  | nil =>
    constructor
    · intro h
      cases h
    · rintro ⟨before, x, after, ys, h, -⟩
      exact absurd h.symm (List.append_ne_nil_of_right_ne_nil _ (List.cons_ne_nil _ _))
  | cons x xs ih =>
    rw [List.mapM_cons, bind_eq_error_iff]
    constructor
    · rintro (h | ⟨y, hy, h⟩)
      · exact ⟨[], x, xs, [], rfl, rfl, h⟩
      · obtain ⟨before, x', after, ys, rfl, hys, hx'⟩ := ih.mp (bind_pure_eq_error_iff.mp h)
        refine ⟨x :: before, x', after, y :: ys, rfl, ?_, hx'⟩
        rw [List.mapM_cons, hy, hys]
        rfl
    · rintro ⟨before, x', after, ys, heq, hbefore, hx'⟩
      rcases before with - | ⟨x'', before⟩
      · obtain ⟨rfl, rfl⟩ := List.cons.inj heq
        exact Or.inl hx'
      · obtain ⟨rfl, rfl⟩ := List.cons.inj heq
        rw [List.mapM_cons] at hbefore
        obtain ⟨y, hy, hbefore⟩ := bind_eq_ok_iff.mp hbefore
        obtain ⟨ys', hys', -⟩ := bind_eq_ok_iff.mp hbefore
        have hxs := ih.mpr ⟨before, x', after, ys', rfl, hys', hx'⟩
        exact Or.inr ⟨y, hy, bind_pure_eq_error_iff.mpr hxs⟩

/-! ### Two computations side by side -/

variable {α' β' : Type}

/-- Both computations fail, or both succeed with values in the relation. -/
inductive Together (R : α → α' → Prop) : Except ε α → Except ε α' → Prop
  | failed (e e' : ε) : Together R (.error e) (.error e')
  | succeeded {a : α} {a' : α'} (h : R a a') : Together R (.ok a) (.ok a')

namespace Together

variable {R : α → α' → Prop} {S : β → β' → Prop} {x : Except ε α} {x' : Except ε α'}

/-- Sequences go together when both steps do. -/
theorem bind {f : α → Except ε β} {f' : α' → Except ε β'} (h : Together R x x')
    (hf : ∀ a a', R a a' → Together S (f a) (f' a')) : Together S (x >>= f) (x' >>= f') := by
  cases h with
  | failed e e' => exact .failed e e'
  | succeeded ha => exact hf _ _ ha

theorem refl (x : Except ε α) : Together (· = ·) x x := by
  rcases x with e | a
  · exact .failed e e
  · exact .succeeded rfl

/-- Runs over a list and over what its items become go together when the steps
for each item do. -/
theorem mapM_map {f : α → Except ε β} {f' : α' → Except ε β} {g : α → α'} {xs : List α}
    (h : ∀ x ∈ xs, Together (· = ·) (f x) (f' (g x))) :
    Together (· = ·) (xs.mapM f) ((xs.map g).mapM f') := by
  induction xs with
  | nil => exact .refl _
  | cons x xs ih =>
    rw [List.map_cons, List.mapM_cons, List.mapM_cons]
    refine (h x List.mem_cons_self).bind ?_
    rintro y - rfl
    refine (ih fun z hz => h z (List.mem_cons_of_mem x hz)).bind ?_
    rintro ys - rfl
    exact .refl _

end Together

end CriteriaSql
