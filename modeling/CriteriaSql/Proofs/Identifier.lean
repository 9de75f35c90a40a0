/-
CriteriaSql/Proofs/Identifier.lean

The grammar of dotted names.

    name    := segment ('.' segment)*
    segment := [A-Za-z_][A-Za-z0-9_$]* | '"' (any character, a quote twice)+ '"'

`Dotted` is this grammar, with the texts of the segments.  Reading follows it
part by part in both directions: a segment in front of a dot or the end is read
as its text (`readPart_of_segment`), and what has been read was a segment
(`exists_segment_of_readPart`).

Main result: `Identifier.parse` accepts exactly the names of the grammar and
returns the texts of their segments, and it reads back what `Identifier.sql` and
`Entity.fullName` write, so no two entities are written alike (`parse_dotted`).
-/
import CriteriaSql.Entity
import CriteriaSql.Identifier

namespace CriteriaSql

open Text (quoteIdent)
open Text.Delimited (write doubled readInside)

namespace Identifier

/-! ### The grammar -/

/-- A segment as it is written, and its text: bare, or between quotes with each
quote of the text written twice. -/
inductive Segment : List Char → List Char → Prop
  | bare {c : Char} {cs : List Char} (hc : c = '_' ∨ c.isAlpha)
      (hcs : ∀ d ∈ cs, d = '_' ∨ d = '$' ∨ d.isAlphanum) : Segment (c :: cs) (c :: cs)
  | quoted {text : List Char} (hne : text ≠ []) : Segment (write '"' text) text

/-- A name as it is written, and the texts of its segments. -/
inductive Dotted : List Char → List (List Char) → Prop
  | last {cs text : List Char} (h : Segment cs text) : Dotted cs [text]
  | more {cs text ds : List Char} {texts : List (List Char)} (h : Segment cs text)
      (hs : Dotted ds texts) : Dotted (cs ++ '.' :: ds) (text :: texts)

theorem Segment.ne_nil {cs text : List Char} (h : Segment cs text) : cs ≠ [] := by
  cases h <;> exact List.cons_ne_nil _ _

theorem Dotted.ne_nil {cs : List Char} {texts : List (List Char)} (h : Dotted cs texts) :
    cs ≠ [] := by
  cases h with
  | last h => exact h.ne_nil
  | more h _ => exact fun e => h.ne_nil (List.append_eq_nil_iff.mp e).1

theorem Dotted.texts_ne_nil {cs : List Char} {texts : List (List Char)} (h : Dotted cs texts) :
    texts ≠ [] := by
  cases h <;> exact List.cons_ne_nil _ _

/-! ### Bare parts -/

theorem allowedBare_first {c : Char} : allowedBare false c = true ↔ c = '_' ∨ c.isAlpha := by
  simp [allowedBare]

theorem allowedBare_later {c : Char} :
    allowedBare true c = true ↔ c = '_' ∨ c = '$' ∨ c.isAlphanum := by
  simp [allowedBare, or_assoc]

theorem ne_dot_of_allowedBare {started : Bool} {c : Char} (h : allowedBare started c = true) :
    c ≠ '.' := by
  rintro rfl
  cases started <;> cases h

/-- What a part is followed by: a dot, or nothing. -/
def EndsPart (rest : List Char) : Prop := ∀ c ∈ rest.head?, c = '.'

theorem readBare_append {cs rest : List Char} (hcs : ∀ c ∈ cs, allowedBare true c = true)
    (hrest : EndsPart rest) : readBare true (cs ++ rest) = .ok (cs, rest) := by
  induction cs with
  | nil =>
    rcases rest with - | ⟨c, rest⟩
    · rfl
    · rw [List.nil_append, readBare, if_pos (hrest c rfl)]
  | cons c cs ih =>
    obtain ⟨hc, hcs⟩ := List.forall_mem_cons.mp hcs
    rw [List.cons_append, readBare, if_neg (ne_dot_of_allowedBare hc), if_pos hc, ih hcs]

theorem eq_append_of_readBare {started : Bool} {cs name rest : List Char}
    (h : readBare started cs = .ok (name, rest)) :
    cs = name ++ rest ∧ (∀ c ∈ name.head?, allowedBare started c = true)
      ∧ ∀ c ∈ name.tail, allowedBare true c = true := by
  induction cs generalizing started name with
  | nil =>
    obtain ⟨rfl, rfl⟩ := Prod.mk.inj (Except.ok.inj h)
    exact ⟨rfl, by simp, by simp⟩
  | cons c cs ih =>
    unfold readBare at h
    split at h
    · obtain ⟨rfl, rfl⟩ := Prod.mk.inj (Except.ok.inj h)
      exact ⟨rfl, by simp, by simp⟩
    · split at h
      · next hc =>
        split at h
        · next name rest heq =>
          obtain ⟨rfl, rfl⟩ := Prod.mk.inj (Except.ok.inj h)
          obtain ⟨rfl, hhead, htail⟩ := ih heq
          refine ⟨rfl, by simpa using hc, fun d hd => ?_⟩
          rcases name with - | ⟨e, name⟩
          · cases hd
          · rcases List.mem_cons.mp hd with rfl | hd
            · exact hhead d rfl
            · exact htail d hd
        · cases h
      · cases h

/-! ### Parts -/

theorem readPart_of_segment {cs text rest : List Char} (h : Segment cs text)
    (hrest : EndsPart rest) : readPart (cs ++ rest) = .ok (text, rest) := by
  cases h with
  | @bare c cs hc hcs =>
    have hfirst := allowedBare_first.mpr hc
    have hquote : c ≠ '"' := by
      rintro rfl
      cases hfirst
    have hlater := readBare_append (fun d hd => allowedBare_later.mpr (hcs d hd)) hrest
    have hbare : readBare false (c :: cs ++ rest) = .ok (c :: cs, rest) := by
      rw [List.cons_append, readBare, if_neg (ne_dot_of_allowedBare hfirst), if_pos hfirst, hlater]
    unfold readPart
    split
    · next heq => exact absurd (List.cons.inj heq).1 hquote
    · rw [hbare]
  | quoted hne =>
    have hquote : rest.head? ≠ some '"' := by
      intro h
      exact absurd (hrest '"' h) (by decide)
    have hread := Text.Delimited.readInside_doubled_append '"' text hquote
    obtain ⟨c, cs, rfl⟩ := List.exists_cons_of_ne_nil hne
    rw [write, List.cons_append, List.append_assoc, List.singleton_append, readPart, hread]

theorem exists_segment_of_readPart {cs text rest : List Char}
    (h : readPart cs = .ok (text, rest)) : ∃ part, cs = part ++ rest ∧ Segment part text := by
  unfold readPart at h
  split at h
  · next cs =>
    rcases hread : readInside '"' cs with - | ⟨_ | ⟨c, name⟩, rest'⟩
    · rw [hread] at h
      cases h
    · rw [hread] at h
      cases h
    · rw [hread] at h
      obtain ⟨rfl, rfl⟩ := Prod.mk.inj (Except.ok.inj h)
      obtain ⟨rfl, -⟩ := Text.Delimited.eq_doubled_append_of_readInside hread
      refine ⟨write '"' (c :: name), ?_, .quoted (List.cons_ne_nil c name)⟩
      rw [write, List.cons_append, List.append_assoc, List.singleton_append]
  · rcases hread : readBare false cs with e | ⟨_ | ⟨c, name⟩, rest'⟩
    · rw [hread] at h
      cases h
    · rw [hread] at h
      cases h
    · rw [hread] at h
      obtain ⟨rfl, rfl⟩ := Prod.mk.inj (Except.ok.inj h)
      obtain ⟨rfl, hc, hname⟩ := eq_append_of_readBare hread
      exact ⟨c :: name, rfl, .bare (allowedBare_first.mp (hc c rfl))
        fun d hd => allowedBare_later.mp (hname d hd)⟩

/-! ### Names -/

theorem readParts_of_last {cs name : List Char} (h : readPart cs = .ok (name, [])) :
    readParts cs = .ok [name] := by
  unfold readParts
  split
  · next heq =>
    rw [h] at heq
    cases heq
  · next heq =>
    rw [h] at heq
    rw [(Prod.mk.inj (Except.ok.inj heq)).1]
  · next heq =>
    rw [h] at heq
    cases heq

theorem readParts_of_dot {cs name rest : List Char} {names : List (List Char)}
    (h : readPart cs = .ok (name, '.' :: rest)) (hne : rest ≠ [])
    (hrest : readParts rest = .ok names) : readParts cs = .ok (name :: names) := by
  have hempty : rest.isEmpty = false := by simpa using hne
  unfold readParts
  split
  · next heq =>
    rw [h] at heq
    cases heq
  · next heq =>
    rw [h] at heq
    cases heq
  · next heq =>
    rw [h] at heq
    obtain ⟨rfl, e⟩ := Prod.mk.inj (Except.ok.inj heq)
    obtain ⟨rfl, rfl⟩ := List.cons.inj e
    rw [if_pos rfl, hempty, if_neg Bool.false_ne_true, hrest]

theorem readParts_of_dotted {cs : List Char} {texts : List (List Char)} (h : Dotted cs texts) :
    readParts cs = .ok texts := by
  induction h with
  | @last cs text h =>
    have hread : readPart (cs ++ []) = .ok (text, []) :=
      readPart_of_segment h (by simp [EndsPart])
    rw [List.append_nil] at hread
    exact readParts_of_last hread
  | more h hs ih =>
    exact readParts_of_dot (readPart_of_segment h (by simp [EndsPart])) hs.ne_nil ih

theorem dotted_of_readParts {cs : List Char} {texts : List (List Char)}
    (h : readParts cs = .ok texts) : Dotted cs texts := by
  fun_induction readParts cs generalizing texts with
  | case1 => cases h
  | case2 cs name hread =>
    obtain rfl := Except.ok.inj h
    obtain ⟨part, rfl, hpart⟩ := exists_segment_of_readPart hread
    rw [List.append_nil]
    exact .last hpart
  | case3 => cases h
  | case4 cs name rest _ names hrest hread ih =>
    obtain rfl := Except.ok.inj h
    obtain ⟨part, rfl, hpart⟩ := exists_segment_of_readPart hread
    exact .more hpart (ih hrest)
  | case5 => cases h
  | case6 => cases h

/-- The texts of the parts. -/
def texts (i : Identifier) : List (List Char) := i.parts.map String.toList

theorem texts_inj {i j : Identifier} (h : i.texts = j.texts) : i = j := by
  rcases i with ⟨ps⟩
  rcases j with ⟨qs⟩
  exact congrArg mk ((List.map_inj_right fun _ _ => String.toList_inj.mp).mp h)

theorem parse_eq_ok_iff {text : String} {i : Identifier} :
    parse text = .ok i ↔ '\x00' ∉ text.toList ∧ Dotted text.toList i.texts := by
  have hnul : text.toList.contains '\x00' = true ↔ '\x00' ∈ text.toList := List.contains_iff_mem
  constructor
  · intro h
    unfold parse at h
    dsimp only at h
    split at h
    · cases h
    · split at h
      · cases h
      · next hcontains =>
        split at h
        · next names hread =>
          obtain rfl := Except.ok.inj h
          refine ⟨fun hmem => hcontains (hnul.mpr hmem), ?_⟩
          simpa [texts, Function.comp_def] using dotted_of_readParts hread
        · cases h
  · rintro ⟨hmem, h⟩
    have hempty : ¬text.toList.isEmpty = true := by simpa using h.ne_nil
    have hread := readParts_of_dotted h
    unfold parse
    dsimp only
    rw [if_neg hempty, if_neg (mt hnul.mp hmem), hread]
    exact congrArg Except.ok (texts_inj (by simp [texts, Function.comp_def]))

theorem parts_ne_nil {text : String} {i : Identifier} (h : parse text = .ok i) : i.parts ≠ [] := by
  have hne := (parse_eq_ok_iff.mp h).2.texts_ne_nil
  exact fun hnil => hne (List.map_eq_nil_iff.mpr hnil)

/-! ### Written names -/

theorem toList_quoteIdent (name : String) : (quoteIdent name).toList = write '"' name.toList :=
  String.toList_ofList

/-- What is written of a name behind one of its parts. -/
def sqlBehind : List String → List Char
  | [] => []
  | p :: ps => '.' :: (sql ⟨p :: ps⟩).toList

theorem toList_sql_cons (p : String) (ps : List String) :
    (sql ⟨p :: ps⟩).toList = write '"' p.toList ++ sqlBehind ps := by
  rcases ps with - | ⟨q, ps⟩
  · rw [sql, List.map_singleton, String.intercalate_singleton, toList_quoteIdent, sqlBehind,
      List.append_nil]
  · rw [sql, List.map_cons, List.map_cons, String.intercalate_cons_cons, String.toList_append,
      String.toList_append, toList_quoteIdent, List.append_assoc]
    rfl

theorem dotted_sql {ps : List String} (hne : ps ≠ []) (h : ∀ p ∈ ps, p ≠ "") :
    Dotted (sql ⟨ps⟩).toList (texts ⟨ps⟩) := by
  induction ps with
  | nil => exact absurd rfl hne
  | cons p ps ih =>
    obtain ⟨hp, hps⟩ := List.forall_mem_cons.mp h
    have hsegment : Segment (write '"' p.toList) p.toList :=
      .quoted fun e => hp (String.toList_eq_nil_iff.mp e)
    rw [toList_sql_cons]
    rcases ps with - | ⟨q, ps⟩
    · rw [sqlBehind, List.append_nil]
      exact .last hsegment
    · exact .more hsegment (ih (List.cons_ne_nil q ps) hps)

theorem mem_of_mem_doubled {quote c : Char} {cs : List Char} (h : c ∈ doubled quote cs) :
    c = quote ∨ c ∈ cs := by
  induction cs with
  | nil => cases h
  | cons d cs ih =>
    rw [doubled] at h
    split at h <;> grind

/-- A written name has no other characters than its parts, quotes and dots. -/
theorem mem_of_mem_sql {ps : List String} {c : Char} (h : c ∈ (sql ⟨ps⟩).toList) :
    c = '"' ∨ c = '.' ∨ ∃ p ∈ ps, c ∈ p.toList := by
  induction ps with
  | nil => cases h
  | cons p ps ih =>
    rw [toList_sql_cons, write] at h
    have hbehind : c ∈ sqlBehind ps → c = '.' ∨ c ∈ (sql ⟨ps⟩).toList := by
      rcases ps with - | ⟨q, ps⟩
      · exact fun h => absurd h List.not_mem_nil
      · exact List.mem_cons.mp
    rcases List.mem_append.mp h with h | h
    · rcases List.mem_cons.mp h with rfl | h
      · exact .inl rfl
      · rcases List.mem_append.mp h with h | h
        · rcases mem_of_mem_doubled h with rfl | h
          · exact .inl rfl
          · exact .inr (.inr ⟨p, List.mem_cons_self, h⟩)
        · exact .inl (List.mem_singleton.mp h)
    · rcases hbehind h with rfl | h
      · exact .inr (.inl rfl)
      · rcases ih h with hc | hc | ⟨q, hq, hc⟩
        · exact .inl hc
        · exact .inr (.inl hc)
        · exact .inr (.inr ⟨q, List.mem_cons_of_mem p hq, hc⟩)

theorem head?_sqlBehind_ne (ps : List String) : (sqlBehind ps).head? ≠ some '"' := by
  rcases ps with - | ⟨p, ps⟩
  · exact fun h => nomatch h
  · exact fun h => absurd (Option.some.inj h) (by decide)

theorem sql_eq_of_sqlBehind {ps qs : List String} (h : sqlBehind ps = sqlBehind qs) :
    sql ⟨ps⟩ = sql ⟨qs⟩ := by
  match ps, qs with
  | [], [] => rfl
  | [], _ :: _ => cases h
  | _ :: _, [] => cases h
  | p :: ps, q :: qs => exact String.toList_inj.mp (List.cons.inj h).2

/-- Names with different parts are written differently. -/
theorem sql_inj {ps qs : List String} (h : sql ⟨ps⟩ = sql ⟨qs⟩) : ps = qs := by
  induction ps generalizing qs with
  | nil =>
    rcases qs with - | ⟨q, qs⟩
    · rfl
    · have := congrArg String.toList h
      rw [toList_sql_cons] at this
      cases this
  | cons p ps ih =>
    rcases qs with - | ⟨q, qs⟩
    · have := congrArg String.toList h
      rw [toList_sql_cons] at this
      cases this
    · have hread := Text.Delimited.read_write_append '"' p.toList (head?_sqlBehind_ne ps)
      rw [← toList_sql_cons, h, toList_sql_cons,
        Text.Delimited.read_write_append '"' q.toList (head?_sqlBehind_ne qs)] at hread
      obtain ⟨hp, hbehind⟩ := Prod.mk.inj (Option.some.inj hread)
      obtain rfl := String.toList_inj.mp hp
      exact congrArg (q :: ·) (ih (sql_eq_of_sqlBehind hbehind.symm))

theorem parse_sql {ps : List String} (hne : ps ≠ []) (h : ∀ p ∈ ps, p ≠ "" ∧ '\x00' ∉ p.toList) :
    parse (sql ⟨ps⟩) = .ok ⟨ps⟩ := by
  refine parse_eq_ok_iff.mpr ⟨fun hnul => ?_, dotted_sql hne fun p hp => (h p hp).1⟩
  rcases mem_of_mem_sql hnul with hc | hc | ⟨p, hp, hc⟩
  · exact absurd hc (by decide)
  · exact absurd hc (by decide)
  · exact (h p hp).2 hc

end Identifier

/-! ### Names of entities -/

namespace Entity

/-- The parts of the name of an entity: its schema, if it has one, and its own
name. -/
def nameParts (e : Entity) : List String := if e.schema = "" then [e.name] else [e.schema, e.name]

theorem fullName_eq_sql (e : Entity) : e.fullName = Identifier.sql ⟨e.nameParts⟩ := by
  unfold fullName nameParts
  split
  · rw [Identifier.sql, List.map_singleton, String.intercalate_singleton]
  · rw [Identifier.sql, List.map_cons, List.map_singleton, String.intercalate_cons_cons,
      String.intercalate_singleton]

theorem nameParts_ne_nil (e : Entity) : e.nameParts ≠ [] := by
  unfold nameParts
  split <;> exact List.cons_ne_nil _ _

theorem nameParts_inj {e e' : Entity} (h : e.nameParts = e'.nameParts) :
    e.schema = e'.schema ∧ e.name = e'.name := by
  unfold nameParts at h
  split at h <;> split at h <;> simp_all

end Entity

/-! ### Main result -/

namespace Identifier

/-- A text is read as a name just when it has no NUL and is a name of the
grammar, and then its parts are the texts of the segments.  A name whose parts
are not empty and have no NUL is read back as it was written, and so is the name
of an entity.  Entities with different schemas or names are written differently,
whatever the names. -/
theorem parse_dotted :
    (∀ (text : String) (i : Identifier),
      parse text = .ok i ↔ '\x00' ∉ text.toList ∧ Dotted text.toList i.texts)
    ∧ (∀ i : Identifier, i.parts ≠ [] → (∀ p ∈ i.parts, p ≠ "" ∧ '\x00' ∉ p.toList) →
      parse i.sql = .ok i)
    ∧ (∀ e : Entity, '\x00' ∉ e.schema.toList → e.name ≠ "" ∧ '\x00' ∉ e.name.toList →
      parse e.fullName = .ok ⟨e.nameParts⟩)
    ∧ ∀ e e' : Entity, e.fullName = e'.fullName → e.schema = e'.schema ∧ e.name = e'.name := by
  refine ⟨fun _ _ => parse_eq_ok_iff, fun i hne hi => parse_sql hne hi, ?_, ?_⟩
  · intro e hschema hname
    rw [e.fullName_eq_sql]
    unfold Entity.nameParts
    split
    · exact parse_sql (List.cons_ne_nil _ _) (by simpa using hname)
    · next hne =>
      refine parse_sql (List.cons_ne_nil _ _) ?_
      intro p hp
      rcases List.mem_cons.mp hp with rfl | hp
      · exact ⟨hne, hschema⟩
      · rw [List.mem_singleton.mp hp]
        exact hname
  · intro e e' h
    rw [e.fullName_eq_sql, e'.fullName_eq_sql] at h
    exact Entity.nameParts_inj (sql_inj h)

/-- A bare segment in front of one that holds a dot and a quote, and a table
with such a name and no schema. -/
theorem parse_dotted_quoted :
    parse "a.\"b.\"\"c\"" = .ok ⟨["a", "b.\"c"]⟩
    ∧ parse (sql ⟨["a", "b.\"c"]⟩) = .ok ⟨["a", "b.\"c"]⟩
    ∧ parse (Entity.table "" "b.\"c").fullName = .ok ⟨["b.\"c"]⟩ := by
  obtain ⟨hparse, hsql, hentity, -⟩ := parse_dotted
  have ha : Segment ['a'] ['a'] := .bare (.inr rfl) fun _ h => nomatch h
  have hbc : Segment "\"b.\"\"c\"".toList "b.\"c".toList :=
    @Segment.quoted "b.\"c".toList (by decide)
  refine ⟨(hparse _ _).mpr ⟨by decide, .more ha (.last hbc)⟩, hsql ⟨_⟩ (by decide) (by decide), ?_⟩
  exact hentity (.table "" "b.\"c") (by decide) (by decide)

end Identifier

end CriteriaSql
