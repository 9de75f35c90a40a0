/-
CriteriaSql/Proofs/Json/ReadBack.lean

JSON values read back from their text.

A value that has been read nests no deeper than its reader allows, its integers
have 64 bits, and the names of a member's object are distinct (`Readable`,
`readable_of_parse?`).  Such a value reads back from its text as itself, but for
its numbers, each of which becomes what its own text is read as (`reread`,
`parse?_chars`).  Integers stay what they are.  A double need not: its text has
the shortest digits that only an exact reader takes back to it.

Main result: `parse?_chars_eq_some_iff`.
-/
import CriteriaSql.Json.Printer
import CriteriaSql.Proofs.Json.Joined
import CriteriaSql.Proofs.Json.Members
import CriteriaSql.Proofs.Json.NumberLiteral

namespace CriteriaSql

namespace Json

/-! ### Values that can be read -/

/-- A value that a text with at most `depth` levels of arrays and objects can
write. -/
inductive Readable : (depth : Nat) → Json → Prop
  | null {depth : Nat} : Readable depth .null
  | bool {depth : Nat} (b : Bool) : Readable depth (.bool b)
  | num {depth : Nat} {n : JsonNumber} (h : ∀ m, n = .int m → JsonNumber.fits m = true) :
      Readable depth (.num n)
  | str {depth : Nat} (s : String) : Readable depth (.str s)
  | arr {depth : Nat} {items : List Json} (h : ∀ v ∈ items, Readable depth v) :
      Readable (depth + 1) (.arr items)
  | obj {depth : Nat} {members : Members} (hnames : members.names.Nodup)
      (h : ∀ m ∈ members, Readable depth m.2) : Readable (depth + 1) (.obj members)

theorem readable_of_read {cs : List Char} {r : JsonNumber × List Char} {depth : Nat}
    (h : JsonNumber.read cs = some r) : Readable depth (.num r.1) := by
  obtain ⟨⟨l, rest⟩, -, h⟩ := Option.bind_eq_some_iff.mp h
  obtain ⟨n, hn, h⟩ := Option.bind_eq_some_iff.mp h
  obtain rfl := Option.some.inj h
  refine .num fun m hm => NumberLiteral.fits_of_value (l := l) ?_
  rw [hn, ← hm]

theorem readable_of_readScalar {cs : List Char} {r : Json × List Char} {depth : Nat}
    (h : readScalar cs = some r) : Readable depth r.1 := by
  unfold readScalar at h
  split at h
  · obtain rfl := Option.some.inj h
    exact .null
  · obtain rfl := Option.some.inj h
    exact .bool true
  · obtain rfl := Option.some.inj h
    exact .bool false
  · obtain ⟨q, -, rfl⟩ := Option.map_eq_some_iff.mp h
    exact .str _
  · obtain ⟨q, hq, rfl⟩ := Option.map_eq_some_iff.mp h
    exact readable_of_read hq

/-- The value of a member has been read by the reader of values. -/
theorem exists_of_readMember {value : Reader Json} {cs : List Char}
    {r : (String × Json) × List Char} (h : readMember value cs = some r) :
    ∃ ds q, value ds = some (r.1.2, q) := by
  unfold readMember at h
  split at h
  · obtain ⟨⟨name, rest⟩, -, h⟩ := Option.bind_eq_some_iff.mp h
    dsimp only at h
    split at h
    · obtain ⟨⟨v, rest'⟩, hv, h⟩ := Option.bind_eq_some_iff.mp h
      obtain rfl := Option.some.inj h
      exact ⟨_, _, hv⟩
    · cases h
  · cases h

/-- What has been read can be read. -/
theorem readable_of_readValue {depth : Nat} {cs : List Char} {r : Json × List Char}
    (h : readValue depth cs = some r) : Readable depth r.1 := by
  induction depth generalizing cs r with
  | zero => exact readable_of_readScalar h
  | succ depth ih =>
    unfold readValue at h
    split at h
    · obtain ⟨q, hq, rfl⟩ := Option.map_eq_some_iff.mp h
      refine .arr fun v hv => ?_
      obtain ⟨ds, rest, hds⟩ := exists_of_mem_bracketed hq v hv
      exact ih hds
    · obtain ⟨q, hq, rfl⟩ := Option.map_eq_some_iff.mp h
      have hnil : (Members.names []).Nodup := List.nodup_nil
      refine .obj (Members.nodup_names_insertAll hnil q.1) ?_
      refine Members.forall_mem_insertAll (fun m hm => absurd hm List.not_mem_nil) fun m hm => ?_
      obtain ⟨ds, rest, hds⟩ := exists_of_mem_bracketed hq m hm
      obtain ⟨ds', rest', hds'⟩ := exists_of_readMember hds
      exact ih hds'
    · exact readable_of_readScalar h

theorem readable_of_parse? {cs : List Char} {v : Json} (h : parse? cs = some v) :
    Readable maxDepth v := by
  unfold parse? at h
  split at h
  · next hv =>
    split at h
    · obtain rfl := Option.some.inj h
      exact readable_of_readValue hv
    · cases h
  · cases h

/-! ### What a text is read as -/

mutual

/-- What the text of a value is read as: the value, with each number read from
the text of it. -/
def reread : Json → Option Json
  | .null => some .null
  | .bool b => some (.bool b)
  | .num n => (JsonNumber.parse? n.chars).map .num
  | .str s => some (.str s)
  | .arr items => (rereadItems items).map .arr
  | .obj members => (rereadMembers members).map .obj

def rereadItems : List Json → Option (List Json)
  | [] => some []
  | v :: vs => do
    let w ← reread v
    let ws ← rereadItems vs
    return w :: ws

def rereadMembers : List (String × Json) → Option (List (String × Json))
  | [] => some []
  | (name, v) :: ms => do
    let w ← reread v
    let ws ← rereadMembers ms
    return (name, w) :: ws

end

/-- A member, with its value read from the text of it. -/
def rereadMember (m : String × Json) : Option (String × Json) :=
  (reread m.2).map fun w => (m.1, w)

theorem rereadItems_eq_mapM (vs : List Json) : rereadItems vs = vs.mapM reread := by
  induction vs with
  | nil => rw [rereadItems]; rfl
  | cons v vs ih => rw [rereadItems, List.mapM_cons, ih]

theorem rereadMembers_eq_mapM (ms : Members) : rereadMembers ms = ms.mapM rereadMember := by
  induction ms with
  | nil => rw [rereadMembers]; rfl
  | cons m ms ih =>
    rw [rereadMembers, List.mapM_cons, ih, rereadMember]
    rcases reread m.2 with - | w <;> rfl

/-- Reading members back does not touch their names. -/
theorem names_of_mapM_rereadMember {ms ms' : Members} (h : ms.mapM rereadMember = some ms') :
    ms'.names = ms.names := by
  induction ms generalizing ms' with
  | nil =>
    obtain rfl := Option.some.inj h
    rfl
  | cons m ms ih =>
    rw [List.mapM_cons] at h
    obtain ⟨m', hm', h⟩ := Option.bind_eq_some_iff.mp h
    obtain ⟨ms'', hms'', h⟩ := Option.bind_eq_some_iff.mp h
    obtain ⟨w, -, rfl⟩ := Option.map_eq_some_iff.mp hm'
    obtain rfl := Option.some.inj h
    show m.1 :: Members.names ms'' = m.1 :: Members.names ms
    rw [ih hms'']

/-! ### Numbers of a value -/

mutual

/-- The numbers in a value, at any depth. -/
def numbers : Json → List JsonNumber
  | .num n => [n]
  | .arr items => itemNumbers items
  | .obj members => memberNumbers members
  | _ => []

def itemNumbers : List Json → List JsonNumber
  | [] => []
  | v :: vs => numbers v ++ itemNumbers vs

def memberNumbers : List (String × Json) → List JsonNumber
  | [] => []
  | (_, v) :: ms => numbers v ++ memberNumbers ms

end

mutual

/-- A value is read from its text as itself exactly when each of its numbers
is. -/
theorem reread_eq_self_iff (v : Json) :
    reread v = some v ↔ ∀ n ∈ numbers v, JsonNumber.parse? n.chars = some n := by
  cases v with
  | null => simp [reread, numbers]
  | bool b => simp [reread, numbers]
  | str s => simp [reread, numbers]
  | num n => simp [reread, numbers]
  | arr items => simp [reread, numbers, ← rereadItems_eq_self_iff items]
  | obj members => simp [reread, numbers, ← rereadMembers_eq_self_iff members]

theorem rereadItems_eq_self_iff (vs : List Json) :
    rereadItems vs = some vs ↔ ∀ n ∈ itemNumbers vs, JsonNumber.parse? n.chars = some n := by
  cases vs with
  | nil => simp [rereadItems, itemNumbers]
  | cons v vs =>
    simp [rereadItems, itemNumbers, or_imp, forall_and, ← reread_eq_self_iff v,
      ← rereadItems_eq_self_iff vs, Option.bind_eq_some_iff]

theorem rereadMembers_eq_self_iff (ms : List (String × Json)) :
    rereadMembers ms = some ms ↔ ∀ n ∈ memberNumbers ms, JsonNumber.parse? n.chars = some n := by
  cases ms with
  | nil => simp [rereadMembers, memberNumbers]
  | cons m ms =>
    obtain ⟨name, v⟩ := m
    simp [rereadMembers, memberNumbers, or_imp, forall_and, ← reread_eq_self_iff v,
      ← rereadMembers_eq_self_iff ms, Option.bind_eq_some_iff]

end

theorem mem_itemNumbers {vs : List Json} {n : JsonNumber} :
    n ∈ itemNumbers vs ↔ ∃ v ∈ vs, n ∈ numbers v := by
  induction vs with
  | nil => simp [itemNumbers]
  | cons v vs ih => simp [itemNumbers, ih]

theorem mem_memberNumbers {ms : Members} {n : JsonNumber} :
    n ∈ memberNumbers ms ↔ ∃ m ∈ ms, n ∈ numbers m.2 := by
  induction ms with
  | nil => simp [memberNumbers]
  | cons m ms ih => simp [memberNumbers, ih]

/-- The integers of a value that can be read have 64 bits. -/
theorem fits_of_mem_numbers {depth : Nat} {v : Json} (h : Readable depth v) {m : Int}
    (hm : .int m ∈ numbers v) : JsonNumber.fits m = true := by
  induction h with
  | null | bool | str => cases hm
  | num h => exact h m (List.mem_singleton.mp hm).symm
  | arr _ ih =>
    obtain ⟨v, hv, hm⟩ := mem_itemNumbers.mp hm
    exact ih v hv hm
  | obj _ _ ih =>
    obtain ⟨m', hm', hm⟩ := mem_memberNumbers.mp hm
    exact ih m' hm' hm

/-! ### Texts that are read back -/

/-- The text of a member. -/
def memberText (m : String × Json) : List Char :=
  stringText m.1.toList ++ ':' :: m.2.chars

theorem itemChars_eq_joined (vs : List Json) : itemChars vs = joined ']' chars vs := by
  induction vs with
  | nil => rw [itemChars, joined]
  | cons v vs ih => rw [itemChars_cons, joined_cons, ih]

theorem memberChars_eq_joined (ms : Members) : memberChars ms = joined '\x7d' memberText ms := by
  induction ms with
  | nil => rw [memberChars, joined]
  | cons m ms ih =>
    rcases ms with - | ⟨m', ms⟩
    · rw [memberChars, joined, memberText, List.append_assoc, List.cons_append]
    · rw [memberChars, joined, ih, memberText, List.append_assoc, List.cons_append]

/-- The text of a value begins with a character that is no blank and closes no
list. -/
theorem exists_chars_eq_cons (v : Json) :
    ∃ c t, v.chars = c :: t ∧ isSpacing c = false ∧ c ≠ ']' := by
  cases v with
  | null => exact ⟨_, _, rfl, rfl, by decide⟩
  | bool b => cases b <;> exact ⟨_, _, rfl, rfl, by decide⟩
  | str s => exact ⟨_, _, rfl, rfl, by decide⟩
  | arr items => exact ⟨_, _, by rw [chars], rfl, by decide⟩
  | obj members => exact ⟨_, _, by rw [chars], rfl, by decide⟩
  | num n =>
    obtain ⟨c, t, hcons, hc⟩ := JsonNumber.exists_chars_eq_cons n
    refine ⟨c, t, by rw [chars, hcons], ?_, ne_of_isNumberChar hc rfl⟩
    have hspace : c ≠ ' ' := ne_of_isNumberChar hc rfl
    have htab : c ≠ '\t' := ne_of_isNumberChar hc rfl
    have hline : c ≠ '\n' := ne_of_isNumberChar hc rfl
    have hreturn : c ≠ '\r' := ne_of_isNumberChar hc rfl
    simp [isSpacing, hspace, htab, hline, hreturn]

theorem starts_chars (v : Json) : Starts v.chars := by
  obtain ⟨c, t, h, hc, -⟩ := exists_chars_eq_cons v
  exact ⟨c, t, h, hc⟩

/-- A text that opens no list is that of a scalar. -/
theorem readValue_of_ne {c : Char} (harr : c ≠ '[') (hobj : c ≠ '\x7b') (depth : Nat)
    (cs : List Char) : readValue depth (c :: cs) = readScalar (c :: cs) := by
  cases depth with
  | zero => rw [readValue]
  | succ depth =>
    rw [readValue]
    · exact fun _ e => harr (List.cons.inj e).1
    · exact fun _ e => hobj (List.cons.inj e).1

theorem EndsValue.endsNumber {r : List Char} (h : EndsValue r) : EndsNumber r := by
  intro c hc
  rcases h c hc with rfl | rfl | rfl <;> decide

/-- A number is read from its text, whatever follows in a list. -/
theorem readScalar_chars (n : JsonNumber) {r : List Char} (hr : EndsValue r) :
    readScalar (n.chars ++ r) = (JsonNumber.parse? n.chars).map fun m => (.num m, r) := by
  have hread := JsonNumber.read_chars n hr.endsNumber
  obtain ⟨c, t, hcons, hc⟩ := JsonNumber.exists_chars_eq_cons n
  rw [hcons, List.cons_append] at hread ⊢
  rw [readScalar, hread]
  · rcases JsonNumber.parse? (c :: t) with - | m <;> rfl
  -- no word and no string begins like a number
  all_goals exact fun _ e => ne_of_isNumberChar hc rfl (List.cons.inj e).1

/-- A member is read from its text when its value is. -/
theorem readMember_memberText {depth : Nat} {m : String × Json} {r : List Char}
    (h : readValue depth (m.2.chars ++ r) = (reread m.2).map fun w => (w, r)) :
    readMember (readValue depth) (memberText m ++ r)
      = (rereadMember m).map fun m' => (m', r) := by
  have htext : memberText m ++ r
      = '"' :: (m.1.toList.flatMap escaped ++ '"' :: ':' :: (m.2.chars ++ r)) := by
    simp [memberText, stringText]
  rw [htext, readMember, readString_escaped]
  simp only [Option.bind_eq_bind, Option.bind_some, skip_cons (c := ':') rfl,
    (starts_chars m.2).skip_append, h]
  rw [rereadMember, String.ofList_toList]
  rcases reread m.2 with - | w <;> rfl

/-- The text of a value that can be read is read, whatever follows in a list. -/
theorem readValue_chars {depth : Nat} {v : Json} (h : Readable depth v) {r : List Char}
    (hr : EndsValue r) :
    readValue depth (v.chars ++ r) = (reread v).map fun w => (w, r) := by
  induction h generalizing r with
  | null =>
    rw [reread]
    show readValue _ ('n' :: _) = _
    rw [readValue_of_ne (by decide) (by decide)]
    rfl
  | bool b =>
    rw [reread]
    rcases b with - | -
    · show readValue _ ('f' :: _) = _
      rw [readValue_of_ne (by decide) (by decide)]
      rfl
    · show readValue _ ('t' :: _) = _
      rw [readValue_of_ne (by decide) (by decide)]
      rfl
  | @num _ n _ =>
    obtain ⟨c, t, hcons, hc⟩ := JsonNumber.exists_chars_eq_cons n
    have hscalar := readScalar_chars n hr
    rw [reread, chars]
    rw [hcons, List.cons_append] at hscalar ⊢
    rw [readValue_of_ne (ne_of_isNumberChar hc rfl) (ne_of_isNumberChar hc rfl), hscalar]
    rcases JsonNumber.parse? (c :: t) with - | m <;> rfl
  | str s =>
    have htext : (Json.str s).chars ++ r = '"' :: (s.toList.flatMap escaped ++ '"' :: r) := by
      simp [chars, stringText]
    rw [htext, readValue_of_ne (by decide) (by decide), readScalar, readString_escaped, reread,
      Option.map_some, String.ofList_toList]
    rfl
  | @arr depth items _ ih =>
    have hread := bracketed_joined (.inl rfl) (fun v _ => starts_chars v)
      (fun v hv r hr => ih v hv hr) (fun v _ t ht => ?_) r
    · rw [chars, itemChars_eq_joined, reread, rereadItems_eq_mapM, List.cons_append, readValue,
        hread]
      rcases items.mapM reread with - | ws <;> rfl
    · obtain ⟨c, t', hcons, -, hc⟩ := exists_chars_eq_cons v
      exact hc (List.cons.inj (hcons.symm.trans ht)).1
  | @obj depth members hnames _ ih =>
    have hstarts : ∀ m ∈ members, Starts (memberText m) := fun m _ => ⟨'"', _, rfl, rfl⟩
    have hread := bracketed_joined (.inr rfl) hstarts
      (fun m hm r hr => readMember_memberText (ih m hm hr)) (fun m _ t ht => ?_) r
    · rw [chars, memberChars_eq_joined, reread, rereadMembers_eq_mapM, List.cons_append, readValue,
        hread]
      rcases hms : members.mapM rereadMember with - | ms
      · rfl
      · have hnames' : (Members.names [] ++ Members.names ms).Nodup := by
          rw [names_of_mapM_rereadMember hms]
          exact hnames
        have hall : Members.insertAll [] ms = ms := Members.insertAll_of_disjoint hnames'
        simp only [Option.map_some, Option.some.injEq, Prod.mk.injEq, Json.obj.injEq, and_true]
        exact hall
    · exact absurd (List.cons.inj ht).1 (by decide)

/-- The text of a value that has been read is read as the value, with each
number read from its own text. -/
theorem parse?_chars {v : Json} (h : Readable maxDepth v) : parse? v.chars = reread v := by
  have hread := readValue_chars h (r := []) fun c hc => by cases hc
  have hskip := (starts_chars v).skip_append []
  rw [List.append_nil] at hread hskip
  rw [parse?, hskip, hread]
  rcases reread v with - | w <;> rfl

/-- A value that has been read is read from its text as itself exactly when each
double in it is. -/
theorem parse?_chars_eq_some_iff {v : Json} (h : Readable maxDepth v) :
    parse? v.chars = some v ↔ ∀ d, .double d ∈ numbers v →
      JsonNumber.parse? (JsonNumber.doubleText d) = some (.double d) := by
  rw [parse?_chars h, reread_eq_self_iff]
  constructor
  · exact fun hnumbers d hd => hnumbers _ hd
  · rintro hdoubles (m | d) hn
    · exact JsonNumber.parse?_intText (fits_of_mem_numbers h hn)
    · exact hdoubles d hn

end Json

end CriteriaSql
